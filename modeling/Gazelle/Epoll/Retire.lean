import Gazelle.Epoll.Lifetime
import Mathlib.Data.Fintype.Basic

/-!
# Freed epoll instances

Before `lstack_epoll_close` frees an instance it marks it and asks each stack to unlink it. A stack
that has been asked does not link a marked instance again, since it tests the mark each time. So no
`wakeup_list` and no local variable of a stack refers to a freed instance. Nothing retires the other
references, the sockets and the fetched kernel events.

* `LifeSys.LifeInv`: the invariant of the runs whose steps meet the condition;
* `LifeSys.epoll_instance_alive`: such runs are safe;
* `LifeSys.epoll_instance_freed`: a socket that was added still refers to a closed instance.
-/

namespace Gazelle

/-- The instance that a thread is going to free, or has just freed. -/
def AppPc.retires? {σ ω : Type*} : AppPc σ ω → Option ω
  | mark _ w => some w
  | clean _ w _ => some w
  | unlink _ w => some w
  | free _ w => some w
  | forget _ w => some w
  | _ => none

/-- The socket that a stack thread is going to reset. -/
def EventPc.resets? {σ ω : Type*} : EventPc σ ω → Option σ
  | resetSock x => some x
  | _ => none

theorem EventPc.mem_resets? {σ ω : Type*} {pc : EventPc σ ω} {x : σ} :
    x ∈ pc.resets? ↔ pc = .resetSock x := by
  cases pc <;> simp [resets?]

namespace LifeSys

variable {stackNum : ℕ} {ι σ ω : Type*} [DecidableEq ι] [DecidableEq σ] [DecidableEq ω]
  {s s' : LifeSys stackNum ι σ ω} {i : ι} {k : Fin stackNum} {x : σ} {w : ω}

/-! ## The invariant -/

section Invariant

variable (s)

/-- The stack has not linked the instance and is not going to. -/
def Quiet (k : Fin stackNum) (w : ω) : Prop :=
  w ∉ s.wakeupList k ∧ (s.stackPc k).links? ≠ some w

/-- An entry of `kernel_events` that was not handled yet. -/
def Fetched (k : Fin stackNum) (i : ℕ) (w : ω) : Prop :=
  i < s.kernelEventNum k ∧ (s.kernelEvents k)[i]? = some w

/-- A descriptor that is open has neither a socket nor an instance. -/
def Bare (fd : σ) : Prop :=
  s.fdOpen fd = true ∧ (s.sock fd).stack = none ∧
    ∀ w, s.alloc w = .live → (s.wakeup w).epollfd ≠ fd

/-- What an application thread knows. -/
def AppInv : AppPc σ ω → Prop
  | .idle => True
  | .ctl _ w _ _ => s.alloc w ≠ .unused
  | .modify _ w _ _ => s.alloc w ≠ .unused
  | .raise _ w _ _ => s.alloc w ≠ .unused
  | .delete w _ _ => s.alloc w ≠ .unused
  | .next _ w _ _ => s.alloc w ≠ .unused
  | .mark fd w => (s.wakeup w).epollfd = fd ∧ s.alloc w = .live
  | .clean fd w idx =>
    (s.wakeup w).epollfd = fd ∧ s.alloc w = .live ∧ (s.wakeup w).type = .close ∧
      ∀ k : Fin stackNum, k < idx → s.Quiet k w
  | .unlink fd w =>
    (s.wakeup w).epollfd = fd ∧ s.alloc w = .live ∧ (s.wakeup w).type = .close ∧
      ∀ k, s.Quiet k w
  | .free fd w =>
    (s.wakeup w).epollfd = fd ∧ s.alloc w = .live ∧ (s.wakeup w).type = .close ∧
      ∀ k, s.Quiet k w
  | .forget fd w => s.alloc w = .freed ∧ s.Bare fd
  | .closeFd fd _ => s.Bare fd

/-- What a stack thread knows. -/
def StackInv (k : Fin stackNum) : EventPc σ ω → Prop
  | .idle => True
  | .addType x w _ => (s.sock x).stack = some k ∧ (s.sock x).wakeup = some w
  | .addEpoll x w _ => (s.sock x).stack = some k ∧ (s.sock x).wakeup = some w
  | .addSection x w _ => (s.sock x).stack = some k ∧ (s.sock x).wakeup = some w
  | .link _ => True
  | .wakeupStack => True
  | .kernelLoop _ => True
  | .kernelType i w => s.Fetched k i w
  | .kernelLink i w => s.Fetched k i w
  | .cleanSock x => (s.sock x).stack = some k
  | .resetSock x => (s.sock x).stack = some k

/-- The invariant. -/
structure LifeInv : Prop where
  /-- The descriptor of a socket is open. -/
  fdOpen : ∀ x, (s.sock x).stack.isSome → s.fdOpen x = true
  /-- The descriptor of an instance is open and has no socket. -/
  epollfd : ∀ w, s.alloc w = .live →
    s.fdOpen (s.wakeup w).epollfd = true ∧ (s.sock (s.wakeup w).epollfd).stack = none
  /-- An instance has a descriptor of its own. -/
  unique : ∀ w w', s.alloc w = .live → s.alloc w' = .live →
    (s.wakeup w).epollfd = (s.wakeup w').epollfd → w = w'
  /-- The instance of a socket is allocated. -/
  sockWakeup : ∀ x w, (s.sock x).stack.isSome → (s.sock x).wakeup = some w → s.alloc w = .live
  /-- So is that of an epoll descriptor, until `lstack_epoll_close` has freed it. -/
  epollWakeup : ∀ x w, (s.sock x).stack = none → (s.sock x).wakeup = some w →
    (s.wakeup w).epollfd = x ∧ (s.alloc w = .live ∨ ∃ i, s.app i = .forget x w)
  /-- A socket is linked in the list of its instance. -/
  eventList : ∀ x w, (s.sock x).eventList = some w →
    (s.sock x).stack.isSome ∧ (s.sock x).wakeup = some w
  /-- The application threads. -/
  app : ∀ i, s.AppInv (s.app i)
  /-- A descriptor is closed by one thread. -/
  closer : ∀ i j fd, (s.app i).closing? = some fd → (s.app j).closing? = some fd → i = j
  /-- The stack threads. -/
  stack : ∀ k, s.StackInv k (s.stackPc k)
  /-- The kernel events. -/
  fetched : ∀ k i w, s.Fetched k i w → s.alloc w ≠ .freed
  /-- A freed instance is marked, and no stack links it. -/
  retired : ∀ w, s.alloc w = .freed → (s.wakeup w).type = .close ∧ ∀ k, s.Quiet k w

end Invariant

omit [DecidableEq ι] [DecidableEq σ] [DecidableEq ω] in
/-- Under the invariant the state is safe. -/
theorem LifeInv.safe (h : s.LifeInv) : s.Safe where
  sock x w hlive hw := by
    rw [h.sockWakeup x w hlive hw]
    decide
  wakeupList k w hmem hfreed := ((h.retired w hfreed).2 k).1 hmem
  kernelEvents k i w hi hw := h.fetched k i w ⟨hi, hw⟩
  locals k w hw := by
    have hinv := h.stack k
    -- a socket of the stack has an instance that is allocated, and a freed one is linked by no
    -- stack
    have hlive : ∀ y, (s.sock y).stack = some k ∧ (s.sock y).wakeup = some w →
        s.alloc w ≠ .freed := by
      rintro y ⟨hstack, hwakeup⟩
      rw [h.sockWakeup y w (by rw [hstack]; rfl) hwakeup]
      decide
    have hlinks : (s.stackPc k).links? = some w → s.alloc w ≠ .freed := fun hl hfreed =>
      ((h.retired w hfreed).2 k).2 hl
    cases hpc : s.stackPc k with
    | addType y v event =>
      rw [hpc] at hinv hw
      cases hw
      exact hlive y hinv
    | addEpoll y v event =>
      rw [hpc] at hinv hw
      cases hw
      exact hlive y hinv
    | addSection y v event =>
      rw [hpc] at hinv hw
      cases hw
      exact hlive y hinv
    | link v =>
      rw [hpc] at hlinks hw
      cases hw
      exact hlinks rfl
    | kernelType j v =>
      -- the kernel events are those that were fetched
      rw [hpc] at hinv hw
      cases hw
      exact h.fetched k j w hinv
    | kernelLink j v =>
      rw [hpc] at hinv hw
      cases hw
      exact h.fetched k j w hinv
    | _ =>
      -- the other program counters hold no instance
      rw [hpc] at hw
      cases hw
  eventList x w hw := (h.eventList x w hw).2

/-! ## Steps that free nothing -/

omit [DecidableEq ι] [DecidableEq σ] [DecidableEq ω] in
/-- What an application thread knows stays true when nothing happens to its instance and its
descriptor, and a stack that has unlinked a marked instance does not link it. -/
theorem AppInv.congr {pc : AppPc σ ω} (h : s.AppInv pc)
    (hused : ∀ w, s.alloc w ≠ .unused →
      s'.alloc w ≠ .unused ∧ (s'.wakeup w).epollfd = (s.wakeup w).epollfd ∧
        ((s.wakeup w).type = .close → (s'.wakeup w).type = .close))
    (hretires : ∀ w, pc.retires? = some w → s'.alloc w = s.alloc w)
    (hquiet : ∀ k w, (s.wakeup w).type = .close → s.Quiet k w → s'.Quiet k w)
    (hbare : ∀ fd, pc.closing? = some fd → s.Bare fd → s'.Bare fd) : s'.AppInv pc := by
  have hlive : ∀ {w}, s.alloc w = .live → s.alloc w ≠ .unused := fun h => by rw [h]; decide
  -- a call that runs needs its instance to be there; one that closes it needs more, which only its
  -- own steps undo
  cases pc with
  | idle => trivial
  | ctl op v y events => exact (hused v h).1
  | modify op v y events => exact (hused v h).1
  | raise op v y events => exact (hused v h).1
  | delete v y events => exact (hused v h).1
  | next op v y events => exact (hused v h).1
  | mark fd v => exact ⟨(hused v (hlive h.2)).2.1.trans h.1, (hretires v rfl).trans h.2⟩
  | clean fd v idx =>
    -- the stacks before `idx` have let go of the instance
    obtain ⟨hfd, halloc, htype, hq⟩ := h
    obtain ⟨-, hfd', htype'⟩ := hused v (hlive halloc)
    exact ⟨hfd'.trans hfd, (hretires v rfl).trans halloc, htype' htype,
      fun k hk => hquiet k v htype (hq k hk)⟩
  | unlink fd v =>
    -- all of them have
    obtain ⟨hfd, halloc, htype, hq⟩ := h
    obtain ⟨-, hfd', htype'⟩ := hused v (hlive halloc)
    exact ⟨hfd'.trans hfd, (hretires v rfl).trans halloc, htype' htype,
      fun k => hquiet k v htype (hq k)⟩
  | free fd v =>
    obtain ⟨hfd, halloc, htype, hq⟩ := h
    obtain ⟨-, hfd', htype'⟩ := hused v (hlive halloc)
    exact ⟨hfd'.trans hfd, (hretires v rfl).trans halloc, htype' htype,
      fun k => hquiet k v htype (hq k)⟩
  -- the instance is freed, and the descriptor is that of no socket
  | forget fd v => exact ⟨(hretires v rfl).trans h.1, hbare fd rfl h.2⟩
  | closeFd fd v => exact hbare fd rfl h

/-- The sockets, the descriptors and the memory are the same. -/
structure SameRefs (s s' : LifeSys stackNum ι σ ω) : Prop where
  /-- Whether there is a socket. -/
  stack : ∀ x, (s'.sock x).stack = (s.sock x).stack
  /-- Its instance. -/
  wakeup : ∀ x, (s'.sock x).wakeup = (s.sock x).wakeup
  /-- The descriptors of the instances. -/
  epollfd : ∀ w, (s'.wakeup w).epollfd = (s.wakeup w).epollfd
  /-- A marked instance stays marked. -/
  type : ∀ w, (s.wakeup w).type = .close → (s'.wakeup w).type = .close
  /-- The memory. -/
  alloc : s'.alloc = s.alloc
  /-- The descriptors. -/
  fdOpen : s'.fdOpen = s.fdOpen

omit [DecidableEq ι] [DecidableEq σ] [DecidableEq ω] in
/-- What an application thread knows stays true with the references. -/
theorem SameRefs.appInv (hsame : SameRefs s s') {pc : AppPc σ ω}
    (hquiet : ∀ k w, (s.wakeup w).type = .close → s.Quiet k w → s'.Quiet k w)
    (h : s.AppInv pc) : s'.AppInv pc := by
  refine h.congr (fun w hw => ⟨hsame.alloc ▸ hw, hsame.epollfd w, hsame.type w⟩)
    (fun w _ => congrFun hsame.alloc w) hquiet fun fd _ hbare => ?_
  refine ⟨hsame.fdOpen ▸ hbare.1, (hsame.stack fd).trans hbare.2.1, fun w hw => ?_⟩
  rw [hsame.epollfd]
  exact hbare.2.2 w (hsame.alloc ▸ hw)

omit [DecidableEq ι] [DecidableEq σ] [DecidableEq ω] in
/-- What a stack thread knows stays true when nothing happens to its sockets and its kernel
events. -/
theorem StackInv.congr {pc : EventPc σ ω} (h : s.StackInv k pc)
    (hstack : ∀ x, (s.sock x).stack = some k → (s'.sock x).stack = some k)
    (hadds : ∀ x w, pc.adds? = some (x, w) → (s.sock x).stack = some k →
      (s.sock x).wakeup = some w → (s'.sock x).wakeup = some w)
    (hfetched : ∀ i w, s.Fetched k i w → s'.Fetched k i w) : s'.StackInv k pc := by
  cases pc with
  | idle => trivial
  | addType x w event => exact ⟨hstack x h.1, hadds x w rfl h.1 h.2⟩
  | addEpoll x w event => exact ⟨hstack x h.1, hadds x w rfl h.1 h.2⟩
  | addSection x w event => exact ⟨hstack x h.1, hadds x w rfl h.1 h.2⟩
  | link w => trivial
  | wakeupStack => trivial
  | kernelLoop i => trivial
  | kernelType i w => exact hfetched i w h
  | kernelLink i w => exact hfetched i w h
  | cleanSock x => exact hstack x h
  | resetSock x => exact hstack x h

omit [DecidableEq ι] [DecidableEq σ] [DecidableEq ω] in
/-- What a stack thread knows stays true with the references. -/
theorem SameRefs.stackInv (hsame : SameRefs s s') {pc : EventPc σ ω}
    (hfetched : ∀ i w, s.Fetched k i w → s'.Fetched k i w) (h : s.StackInv k pc) :
    s'.StackInv k pc :=
  h.congr (fun x hx => (hsame.stack x).trans hx) (fun x _ _ _ hw => (hsame.wakeup x).trans hw)
    hfetched

omit [DecidableEq ι] [DecidableEq σ] [DecidableEq ω] in
/-- The invariant after a step that keeps the references. -/
theorem LifeInv.same (h : s.LifeInv) (hsame : SameRefs s s')
    (hquiet : ∀ k w, (s.wakeup w).type = .close → s.Quiet k w → s'.Quiet k w)
    (hlinked : ∀ x w, (s'.sock x).eventList = some w →
      (s.sock x).stack.isSome ∧ (s.sock x).wakeup = some w)
    (hforget : ∀ i x w, s.app i = .forget x w → s'.app i = .forget x w)
    (happ : ∀ i, s'.AppInv (s'.app i))
    (hcloser : ∀ i j fd, (s'.app i).closing? = some fd → (s'.app j).closing? = some fd → i = j)
    (hstack : ∀ k, s'.StackInv k (s'.stackPc k))
    (hfetched : ∀ k i w, s'.Fetched k i w → s.alloc w ≠ .freed) : s'.LifeInv where
  -- each field speaks of descriptors, instances and references, which are all the same
  fdOpen x hx := by
    rw [hsame.stack] at hx
    rw [hsame.fdOpen]
    exact h.fdOpen x hx
  epollfd w hw := by
    rw [hsame.alloc] at hw
    rw [hsame.epollfd, hsame.fdOpen, hsame.stack]
    exact h.epollfd w hw
  unique w w' hw hw' hfd := by
    rw [hsame.alloc] at hw hw'
    rw [hsame.epollfd, hsame.epollfd] at hfd
    exact h.unique w w' hw hw' hfd
  sockWakeup x w hx hw := by
    rw [hsame.stack] at hx
    rw [hsame.wakeup] at hw
    rw [hsame.alloc]
    exact h.sockWakeup x w hx hw
  epollWakeup x w hx hw := by
    -- the instance may be freed only while the same thread is about to forget it
    rw [hsame.stack] at hx
    rw [hsame.wakeup] at hw
    rw [hsame.epollfd, hsame.alloc]
    obtain ⟨hfd, hlive⟩ := h.epollWakeup x w hx hw
    exact ⟨hfd, hlive.imp_right fun ⟨i, hi⟩ => ⟨i, hforget i x w hi⟩⟩
  eventList x w hw := by
    rw [hsame.stack, hsame.wakeup]
    exact hlinked x w hw
  app := happ
  closer := hcloser
  stack := hstack
  fetched k i w hf := by
    rw [hsame.alloc]
    exact hfetched k i w hf
  retired w hw := by
    rw [hsame.alloc] at hw
    obtain ⟨htype, hq⟩ := h.retired w hw
    exact ⟨hsame.type w htype, fun k => hquiet k w htype (hq k)⟩

omit [DecidableEq σ] [DecidableEq ω] in
/-- A thread that goes on still is the only one to close its descriptor. -/
private theorem LifeInv.closer_update (h : s.LifeInv) {pc : AppPc σ ω}
    (hclosing : ∀ fd, pc.closing? = some fd → (s.app i).closing? = some fd ∨
      ∀ j, (s.app j).closing? ≠ some fd) (j j' : ι) (fd : σ)
    (hj : (Function.update s.app i pc j).closing? = some fd)
    (hj' : (Function.update s.app i pc j').closing? = some fd) : j = j' := by
  by_cases hji : j = i
  · by_cases hji' : j' = i
    · rw [hji, hji']
    · subst hji
      rw [Function.update_self] at hj
      rw [Function.update_of_ne hji'] at hj'
      rcases hclosing fd hj with hc | hc
      · exact h.closer _ _ fd hc hj'
      · exact absurd hj' (hc j')
  · rw [Function.update_of_ne hji] at hj
    by_cases hji' : j' = i
    · subst hji'
      rw [Function.update_self] at hj'
      rcases hclosing fd hj' with hc | hc
      · exact h.closer _ _ fd hj hc
      · exact absurd hj (hc j)
    · rw [Function.update_of_ne hji'] at hj'
      exact h.closer _ _ fd hj hj'

omit [DecidableEq σ] [DecidableEq ω] in
/-- The invariant after an access of an application thread that keeps the references. -/
theorem LifeInv.app_same (h : s.LifeInv) (hsame : SameRefs s s') {pc : AppPc σ ω}
    (happ : s'.app = Function.update s.app i pc) (hpcs : s'.stackPc = s.stackPc)
    (hevents : s'.kernelEvents = s.kernelEvents) (hnum : s'.kernelEventNum = s.kernelEventNum)
    (hlist : ∀ k w, w ∈ s'.wakeupList k → w ∈ s.wakeupList k)
    (hforget : ∀ x w, s.app i ≠ .forget x w)
    (hclosing : ∀ fd, pc.closing? = some fd → (s.app i).closing? = some fd ∨
      ∀ j, (s.app j).closing? ≠ some fd)
    (hlinked : ∀ x w, (s'.sock x).eventList = some w →
      (s.sock x).stack.isSome ∧ (s.sock x).wakeup = some w)
    (hpc : s'.AppInv pc) : s'.LifeInv := by
  have hquiet : ∀ k w, (s.wakeup w).type = .close → s.Quiet k w → s'.Quiet k w :=
    fun k w _ hq => ⟨fun hmem => hq.1 (hlist k w hmem), by rw [hpcs]; exact hq.2⟩
  have hfetched : ∀ k i w, s'.Fetched k i w ↔ s.Fetched k i w := fun k i w => by
    rw [Fetched, Fetched, hevents, hnum]
  refine h.same hsame hquiet hlinked (fun j y v hj => ?_) (fun j => ?_) (fun j j' fd hj hj' => ?_)
    (fun k => ?_) fun k i w hf => h.fetched k i w ((hfetched k i w).1 hf)
  · rw [happ]
    by_cases hji : j = i
    · subst hji
      exact absurd hj (hforget y v)
    · rwa [Function.update_of_ne hji]
  · rw [happ]
    by_cases hji : j = i
    · subst hji
      rwa [Function.update_self]
    · rw [Function.update_of_ne hji]
      exact hsame.appInv hquiet (h.app j)
  · rw [happ] at hj hj'
    exact h.closer_update hclosing j j' fd hj hj'
  · rw [hpcs]
    exact hsame.stackInv (fun i w => (hfetched k i w).2) (h.stack k)

omit [DecidableEq ι] [DecidableEq σ] [DecidableEq ω] in
/-- The invariant after an access of a stack thread that keeps the references. -/
theorem LifeInv.stack_same (h : s.LifeInv) (k : Fin stackNum) (pc : EventPc σ ω)
    (hsame : SameRefs s s')
    (happ : s'.app = s.app) (hpcs : s'.stackPc = Function.update s.stackPc k pc)
    (hevents : s'.kernelEvents = s.kernelEvents)
    (hnum : ∀ j, s'.kernelEventNum j = s.kernelEventNum j ∨ j = k ∧ s'.kernelEventNum j = 0)
    (hlist : ∀ j, j ≠ k → s'.wakeupList j = s.wakeupList j)
    (hquiet : ∀ w, (s.wakeup w).type = .close → s.Quiet k w →
      w ∉ s'.wakeupList k ∧ pc.links? ≠ some w)
    (hlinked : ∀ x w, (s'.sock x).eventList = some w →
      (s.sock x).stack.isSome ∧ (s.sock x).wakeup = some w)
    (hpc : s'.StackInv k pc) : s'.LifeInv := by
  have hquiet' : ∀ j w, (s.wakeup w).type = .close → s.Quiet j w → s'.Quiet j w := by
    intro j w htype hq
    -- the stack that made the step
    by_cases hj : j = k
    · subst hj
      refine ⟨(hquiet w htype hq).1, ?_⟩
      rw [hpcs, Function.update_self]
      exact (hquiet w htype hq).2
    · -- the others have their lists and their places
      refine ⟨hlist j hj ▸ hq.1, ?_⟩
      rw [hpcs, Function.update_of_ne hj]
      exact hq.2
  refine h.same hsame hquiet' hlinked (fun j y v hj => happ ▸ hj)
    (fun j => happ ▸ hsame.appInv hquiet' (h.app j))
    (fun j j' fd hj hj' => h.closer j j' fd (happ ▸ hj) (happ ▸ hj')) (fun j => ?_)
    fun j i w hf => ?_
  · -- likewise what each of them knows
    by_cases hj : j = k
    · subst hj
      rw [hpcs, Function.update_self]
      exact hpc
    · rw [hpcs, Function.update_of_ne hj]
      refine hsame.stackInv (fun i w hf => ?_) (h.stack j)
      rwa [Fetched, hevents, (hnum j).resolve_right fun hk => hj hk.1]
  · obtain ⟨hi, hw⟩ := hf
    -- `kernelEventNum` is the same, or the stack has fetched none
    rcases hnum j with hj | ⟨-, hj⟩
    · exact h.fetched j i w ⟨hj ▸ hi, hevents ▸ hw⟩
    · rw [hj] at hi
      omega

omit [DecidableEq ι] [DecidableEq ω] in
/-- A write to a socket that keeps its references. -/
theorem SameRefs.of_sock {sock : LifeSock (Fin stackNum) ω}
    (hsock : s'.sock = Function.update s.sock x sock) (hstack : sock.stack = (s.sock x).stack)
    (hw : sock.wakeup = (s.sock x).wakeup) (hwakeup : s'.wakeup = s.wakeup)
    (halloc : s'.alloc = s.alloc) (hopen : s'.fdOpen = s.fdOpen) : SameRefs s s' where
  stack y := by
    rw [hsock]
    by_cases hy : y = x
    · subst hy
      rwa [Function.update_self]
    · rw [Function.update_of_ne hy]
  wakeup y := by
    rw [hsock]
    by_cases hy : y = x
    · subst hy
      rwa [Function.update_self]
    · rw [Function.update_of_ne hy]
  epollfd v := by rw [hwakeup]
  type v hv := by rwa [hwakeup]
  alloc := halloc
  fdOpen := hopen

omit [DecidableEq ι] [DecidableEq ω] in
/-- The sockets that are linked after a write to one of them. -/
theorem LifeInv.linked_update (h : s.LifeInv) {sock : LifeSock (Fin stackNum) ω}
    (hlink : ∀ w, sock.eventList = some w → (s.sock x).eventList = some w ∨
      (s.sock x).stack.isSome ∧ (s.sock x).wakeup = some w) (y : σ) (w : ω)
    (hy : (Function.update s.sock x sock y).eventList = some w) :
    (s.sock y).stack.isSome ∧ (s.sock y).wakeup = some w := by
  by_cases hyx : y = x
  · subst hyx
    rw [Function.update_self] at hy
    exact (hlink w hy).elim (h.eventList y w) id
  · rw [Function.update_of_ne hyx] at hy
    exact h.eventList y w hy

/-! ## The application threads -/

omit [DecidableEq σ] [DecidableEq ω] in
/-- An application thread goes on without a write. -/
theorem LifeInv.goto (h : s.LifeInv) {pc : AppPc σ ω} (hforget : ∀ x w, s.app i ≠ .forget x w)
    (hclosing : ∀ fd, pc.closing? = some fd → (s.app i).closing? = some fd ∨
      ∀ j, (s.app j).closing? ≠ some fd) (hpc : s.AppInv pc) : (s.goto i pc).LifeInv := by
  have hsame : SameRefs s (s.goto i pc) :=
    ⟨fun _ => rfl, fun _ => rfl, fun _ => rfl, fun _ h => h, rfl, rfl⟩
  exact h.app_same hsame rfl rfl rfl rfl (fun _ _ hmem => hmem) hforget hclosing h.eventList
    (hsame.appInv (fun _ _ _ hq => hq) hpc)

omit [DecidableEq ω] in
/-- An application thread writes to a socket in `lstack_epoll_ctl`, but not to its references. -/
theorem LifeInv.modifySock_goto (h : s.LifeInv) {pc : AppPc σ ω}
    {f : LifeSock (Fin stackNum) ω → LifeSock (Fin stackNum) ω}
    (hf : (f (s.sock x)).stack = (s.sock x).stack ∧ (f (s.sock x)).wakeup = (s.sock x).wakeup)
    (hlink : ∀ w, (f (s.sock x)).eventList = some w → (s.sock x).eventList = some w ∨
      (s.sock x).stack.isSome ∧ (s.sock x).wakeup = some w)
    (hforget : ∀ x w, s.app i ≠ .forget x w) (hclosing : pc.closing? = none)
    (hpc : s.AppInv pc) : ((s.modifySock x f).goto i pc).LifeInv := by
  have hsame : SameRefs s ((s.modifySock x f).goto i pc) :=
    .of_sock (x := x) rfl hf.1 hf.2 rfl rfl rfl
  refine h.app_same hsame rfl rfl rfl rfl (fun _ _ hmem => hmem) hforget (fun fd hfd => ?_)
    (h.linked_update hlink) (hsame.appInv (fun _ _ _ hq => hq) hpc)
  rw [hclosing] at hfd
  cases hfd

omit [DecidableEq ω] in
/-- `EPOLL_CTL_ADD` stores its instance to a socket. -/
theorem LifeInv.ctlAdd (h : s.LifeInv) {events : EpollMask} (hpc : s.app i = .ctl .add w x events)
    (hlive : (s.sock x).stack.isSome) (halloc : s.alloc w ≠ .freed)
    (hlinked : ∀ w', (s.sock x).eventList = some w' → w' = w)
    (hadds : ∀ k w', (s.stackPc k).adds? = some (x, w') → w' = w) :
    ((s.modifySock x fun sock => { sock with wakeup := some w }).goto i
      (.modify .add w x events)).LifeInv := by
  have hused := h.app i
  rw [hpc] at hused
  have hused : s.alloc w ≠ .unused := hused
  -- the condition excludes a freed instance, and an application only has one that was made
  have hw : s.alloc w = .live := by
    cases hs : s.alloc w with
    | unused => exact absurd hs hused
    | live => rfl
    | freed => exact absurd hs halloc
  have hforget : ∀ j y v, s.app j = .forget y v →
      Function.update s.app i (.modify .add w x events) j = .forget y v := by
    intro j y v hj
    by_cases hji : j = i
    · subst hji
      rw [hpc] at hj
      cases hj
    · rwa [Function.update_of_ne hji]
  -- only `wakeup` of the socket changes
  have hstack : ∀ y, (Function.update s.sock x { s.sock x with wakeup := some w } y).stack =
      (s.sock y).stack := by
    intro y
    by_cases hy : y = x
    · subst hy
      rw [Function.update_self]
    · rw [Function.update_of_ne hy]
  have hother : ∀ y, y ≠ x → Function.update s.sock x { s.sock x with wakeup := some w } y =
      s.sock y := fun y hy => Function.update_of_ne hy ..
  refine ⟨fun y hy => h.fdOpen y (hstack y ▸ hy), fun v hv => ?_, h.unique, fun y v hy hv => ?_,
    fun y v hy hv => ?_, fun y v hv => ?_, fun j => ?_, fun j j' fd hj hj' => ?_, fun k => ?_,
    h.fetched, h.retired⟩
  · -- the descriptors of instances have no sockets, before and after
    exact ⟨(h.epollfd v hv).1, (hstack _).trans (h.epollfd v hv).2⟩
  · by_cases hyx : y = x
    · subst hyx
      simp only [LifeSys.goto, modifySock, Function.update_self, Option.some.injEq] at hv
      exact hv ▸ hw
    · simp only [LifeSys.goto, modifySock, hother y hyx] at hy hv
      exact h.sockWakeup y v hy hv
  · -- the socket is no epoll descriptor, so that these keep their instances
    by_cases hyx : y = x
    · subst hyx
      simp only [LifeSys.goto, modifySock, Function.update_self] at hy
      rw [hy] at hlive
      cases hlive
    · simp only [LifeSys.goto, modifySock, hother y hyx] at hy hv
      obtain ⟨hfd, hv⟩ := h.epollWakeup y v hy hv
      exact ⟨hfd, hv.imp_right fun ⟨j, hj⟩ => ⟨j, hforget j y v hj⟩⟩
  · -- the socket is linked with its old instance only when that is the same
    by_cases hyx : y = x
    · subst hyx
      simp only [LifeSys.goto, modifySock, Function.update_self] at hv ⊢
      exact ⟨hlive, by rw [hlinked v hv]⟩
    · simp only [LifeSys.goto, modifySock, hother y hyx] at hv ⊢
      exact h.eventList y v hv
  · by_cases hji : j = i
    · subst hji
      simp only [LifeSys.goto, Function.update_self]
      exact hused
    · simp only [LifeSys.goto, Function.update_of_ne hji]
      refine (h.app j).congr (fun v hv => ⟨hv, rfl, id⟩) (fun _ _ => rfl) (fun _ _ _ hq => hq) ?_
      exact fun fd _ hbare => ⟨hbare.1, (hstack fd).trans hbare.2.1, hbare.2.2⟩
  · -- `lstack_epoll_ctl` closes no descriptor
    exact h.closer_update (fun fd hfd => by cases hfd) j j' fd hj hj'
  · -- a stack that is adding an event for the socket has read the same instance
    refine (h.stack k).congr (fun y hy => (hstack y).trans hy) (fun y v hv hy hw' => ?_)
      fun _ _ hf => hf
    by_cases hyx : y = x
    · subst hyx
      simp only [LifeSys.goto, modifySock, Function.update_self]
      rw [hadds k v hv]
    · simp only [LifeSys.goto, modifySock, hother y hyx]
      exact hw'

omit [DecidableEq ω] in
/-- An access in `lstack_epoll_ctl`. -/
theorem LifeInv.ctlStep (h : s.LifeInv) {env : AppEnv σ} (hc : s.AppCondition env (s.app i))
    (hs : s.ctlStep i env (s.app i) = some s') : s'.LifeInv := by
  have happ := h.app i
  cases hpc : s.app i with
  | ctl op w x events =>
    rw [hpc] at hs hc happ
    -- only `EPOLL_CTL_ADD` stores an instance to a socket
    cases op with
    | add =>
      obtain rfl := Option.some.inj hs
      exact h.ctlAdd hpc hc.1 hc.2.1 hc.2.2.1 hc.2.2.2
    | mod =>
      obtain rfl := Option.some.inj hs
      exact h.goto (by simp [hpc]) (by simp [AppPc.closing?]) happ
    | del =>
      obtain rfl := Option.some.inj hs
      exact h.modifySock_goto ⟨rfl, rfl⟩ (fun _ => .inl) (by simp [hpc]) rfl happ
  | modify op w x events =>
    rw [hpc] at hs happ
    obtain rfl := Option.some.inj hs
    exact h.modifySock_goto ⟨rfl, rfl⟩ (fun _ => .inl) (by simp [hpc]) rfl happ
  | raise op w x events =>
    rw [hpc] at hs hc happ
    obtain rfl := Option.some.inj hs
    refine h.modifySock_goto ⟨rfl, rfl⟩ (fun v hv => ?_) (by simp [hpc]) rfl happ
    dsimp only at hv
    -- `raise_pending_events` links the socket with the instance that it has
    split at hv
    · rename_i hraises
      exact .inr (Option.some.inj hv ▸ hc hraises)
    · exact .inl hv
  | delete w x events =>
    rw [hpc] at hs happ
    obtain rfl := Option.some.inj hs
    exact h.modifySock_goto ⟨rfl, rfl⟩ (fun v hv => by cases hv) (by simp [hpc]) rfl happ
  | next op w x events =>
    rw [hpc] at hs happ
    -- the sockets of one descriptor are gone through by `listen_next`
    cases hnext : env.listenNext with
    | none =>
      simp only [LifeSys.ctlStep, hnext] at hs
      obtain rfl := Option.some.inj hs
      exact h.goto (by simp [hpc]) (by simp [AppPc.closing?]) trivial
    | some y =>
      simp only [LifeSys.ctlStep, hnext] at hs
      obtain rfl := Option.some.inj hs
      exact h.goto (by simp [hpc]) (by simp [AppPc.closing?]) happ
  | _ =>
    rw [hpc] at hs
    cases hs

omit [DecidableEq ι] [DecidableEq σ] in
/-- A write to an instance that keeps its descriptor and its mark. -/
theorem SameRefs.of_wakeup {wakeup : WakeupPoll σ}
    (hwakeup : s'.wakeup = Function.update s.wakeup w wakeup)
    (hfd : wakeup.epollfd = (s.wakeup w).epollfd)
    (htype : (s.wakeup w).type = .close → wakeup.type = .close) (hsock : s'.sock = s.sock)
    (halloc : s'.alloc = s.alloc) (hopen : s'.fdOpen = s.fdOpen) : SameRefs s s' where
  stack y := by rw [hsock]
  wakeup y := by rw [hsock]
  epollfd v := by
    rw [hwakeup]
    by_cases hv : v = w
    · subst hv
      rwa [Function.update_self]
    · rw [Function.update_of_ne hv]
  type v hv := by
    rw [hwakeup]
    by_cases hvw : v = w
    · subst hvw
      rw [Function.update_self]
      exact htype hv
    · rwa [Function.update_of_ne hvw]
  alloc := halloc
  fdOpen := hopen

omit [DecidableEq σ] in
/-- `lstack_epoll_close` marks its instance. -/
theorem LifeInv.mark (h : s.LifeInv) {fd : σ} (hpc : s.app i = .mark fd w) :
    ((s.modifyWakeup w fun wakeup => { wakeup with type := .close }).goto i
      (.clean fd w 0)).LifeInv := by
  have happ := h.app i
  rw [hpc] at happ
  have hsame : SameRefs s ((s.modifyWakeup w fun wakeup => { wakeup with type := .close }).goto i
      (.clean fd w 0)) := .of_wakeup (w := w) rfl rfl (fun _ => rfl) rfl rfl rfl
  refine h.app_same hsame rfl rfl rfl rfl (fun _ _ hmem => hmem) (by simp [hpc])
    (fun fd' hfd => .inl (by rw [hpc]; exact hfd)) h.eventList
    ⟨(hsame.epollfd w).trans happ.1, happ.2, ?_, fun k hk => absurd hk (Nat.not_lt_zero _)⟩
  simp only [LifeSys.goto, modifyWakeup, Function.update_self]

omit [DecidableEq σ] [DecidableEq ω] in
/-- `lstack_epoll_close` goes on to the next stack. -/
theorem LifeInv.clean (h : s.LifeInv) {fd : σ} {idx : ℕ} (hpc : s.app i = .clean fd w idx)
    (hlt : idx < stackNum) (happ : s'.app = Function.update s.app i (.clean fd w (idx + 1)))
    (hsame : SameRefs s s') (hsock : s'.sock = s.sock) (hpcs : s'.stackPc = s.stackPc)
    (hevents : s'.kernelEvents = s.kernelEvents) (hnum : s'.kernelEventNum = s.kernelEventNum)
    (hlist : ∀ k v, v ∈ s'.wakeupList k → v ∈ s.wakeupList k)
    (hquiet : s'.Quiet ⟨idx, hlt⟩ w) : s'.LifeInv := by
  have hinv := h.app i
  rw [hpc] at hinv
  obtain ⟨hfd, halloc, htype, hq⟩ := hinv
  refine h.app_same hsame happ hpcs hevents hnum hlist (by simp [hpc])
    (fun fd' hfd => .inl (by rw [hpc]; exact hfd)) (fun y v hy => h.eventList y v (hsock ▸ hy))
    ⟨(hsame.epollfd w).trans hfd, (congrFun hsame.alloc w).trans halloc, hsame.type w htype,
      fun k hk => ?_⟩
  by_cases hki : k.val = idx
  · subst hki
    exact hquiet
  · obtain ⟨hmem, hlinks⟩ := hq k (by omega)
    exact ⟨fun hin => hmem (hlist k w hin), by rwa [hpcs]⟩

omit [DecidableEq σ] in
/-- `lstack_epoll_close` empties the event list. -/
theorem LifeInv.unlink (h : s.LifeInv) {fd : σ} (hpc : s.app i = .unlink fd w) :
    LifeInv { s.goto i (.free fd w) with
      sock := fun x =>
        if (s.sock x).eventList = some w then { s.sock x with eventList := none }
        else s.sock x } := by
  have hinv := h.app i
  rw [hpc] at hinv
  have hsame : SameRefs s { s.goto i (.free fd w) with
      sock := fun x =>
        if (s.sock x).eventList = some w then { s.sock x with eventList := none }
        else s.sock x } := by
    refine ⟨fun x => ?_, fun x => ?_, fun _ => rfl, fun _ h => h, rfl, rfl⟩
    · dsimp only
      split
      · rfl
      · rfl
    · dsimp only
      split
      · rfl
      · rfl
  refine h.app_same hsame rfl rfl rfl rfl (fun _ _ hmem => hmem) (by simp [hpc])
    (fun fd' hfd => .inl (by rw [hpc]; exact hfd)) (fun y v hy => ?_) hinv
  dsimp only at hy
  split at hy
  · cases hy
  · exact h.eventList y v hy

omit [DecidableEq ι] [DecidableEq σ] [DecidableEq ω] in
/-- A thread that is going to free an instance closes its descriptor. -/
theorem AppInv.of_retires {pc : AppPc σ ω} (h : s.AppInv pc) (hpc : pc.retires? = some w) :
    s.alloc w = .live ∧ pc.closing? = some (s.wakeup w).epollfd ∨ s.alloc w = .freed := by
  cases pc with
  | mark fd v =>
    cases hpc
    exact .inl ⟨h.2, by rw [h.1]; rfl⟩
  | clean fd v idx =>
    cases hpc
    exact .inl ⟨h.2.1, by rw [h.1]; rfl⟩
  | unlink fd v =>
    cases hpc
    exact .inl ⟨h.2.1, by rw [h.1]; rfl⟩
  | free fd v =>
    cases hpc
    exact .inl ⟨h.2.1, by rw [h.1]; rfl⟩
  | forget fd v =>
    cases hpc
    exact .inr h.1
  | _ => cases hpc

omit [DecidableEq σ] in
/-- `lstack_epoll_close` frees its instance: neither a socket nor a kernel event refers to it. -/
theorem LifeInv.free (h : s.LifeInv) {fd : σ} (hpc : s.app i = .free fd w)
    (hsock : ∀ x, (s.sock x).stack.isSome → (s.sock x).wakeup ≠ some w)
    (hevents : ∀ k j, ¬ s.Fetched k j w) :
    LifeInv { s.goto i (.forget fd w) with alloc := Function.update s.alloc w .freed } := by
  have hinv := h.app i
  rw [hpc] at hinv
  obtain ⟨hfd, halloc, htype, hquiet⟩ := hinv
  have hlive : ∀ v, Function.update s.alloc w .freed v = .live → s.alloc v = .live ∧ v ≠ w := by
    intro v hv
    by_cases hvw : v = w
    · subst hvw
      rw [Function.update_self] at hv
      cases hv
    · rw [Function.update_of_ne hvw] at hv
      exact ⟨hv, hvw⟩
  have hother : ∀ v, v ≠ w → Function.update s.alloc w .freed v = s.alloc v := fun v hv =>
    Function.update_of_ne hv ..
  refine ⟨h.fdOpen, fun v hv => h.epollfd v (hlive v hv).1,
    fun v v' hv hv' => h.unique v v' (hlive v hv).1 (hlive v' hv').1, fun x v hx hv => ?_,
    fun x v hx hv => ?_, h.eventList, fun j => ?_, fun j j' fd' hj hj' => ?_, h.stack,
    fun k j v hf => ?_, fun v hv => ?_⟩
  · have hvw : v ≠ w := fun heq => hsock x hx (heq ▸ hv)
    exact (hother v hvw).trans (h.sockWakeup x v hx hv)
  · obtain ⟨hfd', hv'⟩ := h.epollWakeup x v hx hv
    refine ⟨hfd', ?_⟩
    by_cases hvw : v = w
    · subst hvw
      refine .inr ⟨i, ?_⟩
      have hxfd : x = fd := hfd'.symm.trans hfd
      show Function.update s.app i _ i = _
      rw [Function.update_self, hxfd]
    · refine hv'.imp (fun hl => (hother v hvw).trans hl) fun ⟨j, hj⟩ => ⟨j, ?_⟩
      have hji : j ≠ i := by
        rintro rfl
        rw [hpc] at hj
        cases hj
      exact (Function.update_of_ne hji ..).trans hj
  · by_cases hji : j = i
    · subst hji
      simp only [LifeSys.goto, Function.update_self]
      have hbare := h.epollfd w halloc
      rw [hfd] at hbare
      refine ⟨Function.update_self .., hbare.1, hbare.2, fun v hv heq => ?_⟩
      obtain ⟨hvlive, hvw⟩ := hlive v hv
      exact hvw (h.unique v w hvlive halloc (heq.trans hfd.symm))
    · simp only [LifeSys.goto, Function.update_of_ne hji]
      refine (h.app j).congr (fun v hv => ⟨?_, rfl, id⟩) (fun v hv => ?_) (fun _ _ _ hq => hq)
        fun fd' _ hbare => ⟨hbare.1, hbare.2.1, fun v hv => hbare.2.2 v (hlive v hv).1⟩
      · by_cases hvw : v = w
        · subst hvw
          show Function.update s.alloc v _ v ≠ _
          rw [Function.update_self]
          decide
        · show Function.update s.alloc w _ v ≠ _
          rwa [hother v hvw]
      · -- another thread would close the same descriptor
        refine hother v fun hvw => hji ?_
        subst hvw
        rcases (h.app j).of_retires hv with ⟨-, hj⟩ | hfreed
        · exact h.closer j i fd (hfd ▸ hj) (by rw [hpc]; rfl)
        · rw [hfreed] at halloc
          cases halloc
  · exact h.closer_update (fun fd'' hfd'' => .inl (by rw [hpc]; exact hfd'')) j j' fd' hj hj'
  · have hvw : v ≠ w := by
      rintro rfl
      exact hevents k j hf
    show Function.update s.alloc w _ v ≠ _
    rw [hother v hvw]
    exact h.fetched k j v hf
  · by_cases hvw : v = w
    · subst hvw
      exact ⟨htype, hquiet⟩
    · exact h.retired v ((hother v hvw).symm.trans hv)

omit [DecidableEq ω] in
/-- `lstack_epoll_close` clears `wakeup` of the descriptor. -/
theorem LifeInv.forget (h : s.LifeInv) {fd : σ} (hpc : s.app i = .forget fd w) :
    ((s.modifySock fd fun sock => { sock with wakeup := none }).goto i
      (.closeFd fd w)).LifeInv := by
  have hinv := h.app i
  rw [hpc] at hinv
  -- the thread that closes is the only one that uses the descriptor
  obtain ⟨-, hopen, hnone, hfd⟩ := hinv
  have hother : ∀ y, y ≠ fd → Function.update s.sock fd { s.sock fd with wakeup := none } y =
      s.sock y := fun y hy => Function.update_of_ne hy ..
  have hstack : ∀ y, (Function.update s.sock fd { s.sock fd with wakeup := none } y).stack =
      (s.sock y).stack := by
    intro y
    by_cases hy : y = fd
    · subst hy
      rw [Function.update_self]
    · rw [hother y hy]
  -- it is the descriptor of the instance, and so no socket
  have hne : ∀ {y}, (s.sock y).stack.isSome → y ≠ fd := by
    rintro y hy rfl
    rw [hnone] at hy
    cases hy
  have hbare : ∀ fd', s.Bare fd' → Bare ((s.modifySock fd fun sock =>
      { sock with wakeup := none }).goto i (.closeFd fd w)) fd' := fun fd' hb =>
    ⟨hb.1, (hstack fd').trans hb.2.1, hb.2.2⟩
  refine ⟨fun y hy => h.fdOpen y (hstack y ▸ hy), fun v hv => ?_, h.unique, fun y v hy hv => ?_,
    fun y v hy hv => ?_, fun y v hv => ?_, fun j => ?_, fun j j' fd' hj hj' => ?_, fun k => ?_,
    h.fetched, h.retired⟩
  · exact ⟨(h.epollfd v hv).1, (hstack _).trans (h.epollfd v hv).2⟩
  · have hy : (s.sock y).stack.isSome := hstack y ▸ hy
    simp only [LifeSys.goto, modifySock, hother y (hne hy)] at hv
    exact h.sockWakeup y v hy hv
  · -- its entry has no instance now, and the entries of the others are the same
    by_cases hyfd : y = fd
    · subst hyfd
      simp only [LifeSys.goto, modifySock, Function.update_self] at hv
      cases hv
    · simp only [LifeSys.goto, modifySock, hother y hyfd] at hy hv
      obtain ⟨hfd', hv⟩ := h.epollWakeup y v hy hv
      refine ⟨hfd', hv.imp_right fun ⟨j, hj⟩ => ⟨j, ?_⟩⟩
      have hji : j ≠ i := by
        rintro rfl
        rw [hpc] at hj
        cases hj
        exact hyfd rfl
      exact (Function.update_of_ne hji ..).trans hj
  · -- an entry that is linked is that of a socket
    have hv' : (s.sock y).eventList = some v := by
      by_cases hyfd : y = fd
      · subst hyfd
        simpa only [LifeSys.goto, modifySock, Function.update_self] using hv
      · simpa only [LifeSys.goto, modifySock, hother y hyfd] using hv
    obtain ⟨hy, hw⟩ := h.eventList y v hv'
    simp only [LifeSys.goto, modifySock, hother y (hne hy)]
    exact ⟨hy, hw⟩
  · -- the closing thread goes on to close its descriptor, which is bare
    by_cases hji : j = i
    · subst hji
      simp only [LifeSys.goto, Function.update_self]
      exact hbare fd ⟨hopen, hnone, hfd⟩
    · simp only [LifeSys.goto, Function.update_of_ne hji]
      exact (h.app j).congr (fun v hv => ⟨hv, rfl, id⟩) (fun _ _ => rfl) (fun _ _ _ hq => hq)
        fun fd' _ hb => hbare fd' hb
  · exact h.closer_update (fun fd'' hfd'' => .inl (by rw [hpc]; exact hfd'')) j j' fd' hj hj'
  · refine (h.stack k).congr (fun y hy => (hstack y).trans hy) (fun y v hv hy hw' => ?_)
      fun _ _ hf => hf
    simp only [LifeSys.goto, modifySock, hother y (hne (by rw [hy]; rfl))]
    exact hw'

/-- `lstack_epoll_close` closes the descriptor. -/
theorem LifeInv.closeFd (h : s.LifeInv) {fd : σ} (hpc : s.app i = .closeFd fd w) :
    LifeInv { s.goto i .idle with
      fdOpen := Function.update s.fdOpen fd false
      watched := Function.update s.watched w none } := by
  have hinv := h.app i
  rw [hpc] at hinv
  obtain ⟨hopen, hnone, hfd⟩ := hinv
  -- only this descriptor is closed
  have hother : ∀ y, y ≠ fd → Function.update s.fdOpen fd false y = s.fdOpen y := fun y hy =>
    Function.update_of_ne hy ..
  refine ⟨fun y hy => ?_, fun v hv => ?_, h.unique, h.sockWakeup, fun y v hy hv => ?_,
    h.eventList, fun j => ?_, fun j j' fd' hj hj' => ?_, h.stack, h.fetched, h.retired⟩
  · -- it is that of no socket
    have hyfd : y ≠ fd := by
      rintro rfl
      have hy : (s.sock y).stack.isSome := hy
      rw [hnone] at hy
      cases hy
    exact (hother y hyfd).trans (h.fdOpen y hy)
  · -- nor that of an instance that is there
    exact ⟨(hother _ (hfd v hv)).trans (h.epollfd v hv).1, (h.epollfd v hv).2⟩
  · obtain ⟨hfd', hv⟩ := h.epollWakeup y v hy hv
    refine ⟨hfd', hv.imp_right fun ⟨j, hj⟩ => ⟨j, ?_⟩⟩
    -- the one who closes another instance is not this thread
    have hji : j ≠ i := by
      rintro rfl
      rw [hpc] at hj
      cases hj
    exact (Function.update_of_ne hji ..).trans hj
  · -- this thread is through; what the others know is of other descriptors
    by_cases hji : j = i
    · subst hji
      simp only [LifeSys.goto, Function.update_self]
      trivial
    · simp only [LifeSys.goto, Function.update_of_ne hji]
      refine (h.app j).congr (fun v hv => ⟨hv, rfl, id⟩) (fun _ _ => rfl) (fun _ _ _ hq => hq)
        fun fd' hfd' hb => ⟨?_, hb.2⟩
      have hne : fd' ≠ fd := by
        rintro rfl
        exact hji (h.closer j i fd' hfd' (by rw [hpc]; rfl))
      exact (hother fd' hne).trans hb.1
  · exact h.closer_update (fun fd'' hfd'' => by cases hfd'') j j' fd' hj hj'

/-- An access in `lstack_epoll_close`. -/
theorem LifeInv.closeStep (h : s.LifeInv) {env : AppEnv σ} (hc : s.AppCondition env (s.app i))
    (hs : s.closeStep i env (s.app i) = some s') : s'.LifeInv := by
  cases hpc : s.app i with
  | mark fd w =>
    rw [hpc] at hs
    obtain rfl := Option.some.inj hs
    exact h.mark hpc
  | clean fd w idx =>
    rw [hpc] at hs hc
    simp only [LifeSys.closeStep] at hs
    split at hs
    · rename_i hlt
      split at hs
      · -- the stack unlinks the instance
        split at hs
        · rename_i hidle
          obtain rfl := Option.some.inj hs
          refine h.clean hpc hlt rfl
            ⟨fun _ => rfl, fun _ => rfl, fun _ => rfl, fun _ h => h, rfl, rfl⟩ rfl rfl rfl
            rfl (fun k v hv => ?_) ⟨?_, ?_⟩
          · by_cases hk : k = ⟨idx, hlt⟩
            · subst hk
              simp only [LifeSys.goto, unlinkWakeup, Function.update_self] at hv
              exact (List.mem_filter.1 hv).1
            · simpa only [LifeSys.goto, unlinkWakeup, Function.update_of_ne hk] using hv
          · simp [LifeSys.goto, unlinkWakeup]
          · show (s.stackPc ⟨idx, hlt⟩).links? ≠ some w
            rw [hidle]
            simp [EventPc.links?]
        · cases hs
      · rename_i hmsg
        obtain rfl := Option.some.inj hs
        exact h.clean hpc hlt rfl
          ⟨fun _ => rfl, fun _ => rfl, fun _ => rfl, fun _ h => h, rfl, rfl⟩ rfl rfl rfl rfl
          (fun _ _ hv => hv) (hc (by simpa using hmsg) hlt)
    · rename_i hge
      obtain rfl := Option.some.inj hs
      have hinv := h.app i
      rw [hpc] at hinv
      obtain ⟨hfd, halloc, htype, hq⟩ := hinv
      exact h.goto (by simp [hpc]) (fun fd' hfd' => .inl (by rw [hpc]; exact hfd'))
        ⟨hfd, halloc, htype, fun k => hq k (Nat.lt_of_lt_of_le k.isLt (Nat.not_lt.1 hge))⟩
  | unlink fd w =>
    rw [hpc] at hs
    obtain rfl := Option.some.inj hs
    exact h.unlink hpc
  | free fd w =>
    rw [hpc] at hs hc
    obtain rfl := Option.some.inj hs
    exact h.free hpc hc.1 fun k j hf => hc.2 k j hf.1 hf.2
  | forget fd w =>
    rw [hpc] at hs
    obtain rfl := Option.some.inj hs
    exact h.forget hpc
  | closeFd fd w =>
    rw [hpc] at hs
    obtain rfl := Option.some.inj hs
    exact h.closeFd hpc
  | _ =>
    rw [hpc] at hs
    cases hs

/-- A new instance `w` is made for the descriptor `fd`. -/
structure Creates (s s' : LifeSys stackNum ι σ ω) (fd : σ) (w : ω) : Prop where
  /-- The descriptor was closed. -/
  closed : s.fdOpen fd = false
  /-- The instance was never allocated. -/
  unused : s.alloc w = .unused
  /-- The other sockets are the same. -/
  sock : ∀ y, y ≠ fd → s'.sock y = s.sock y
  /-- The entry of the descriptor has the instance. -/
  sock_self : s'.sock fd = { s.sock fd with wakeup := some w }
  /-- Open descriptors stay open. -/
  fdOpen : ∀ y, s.fdOpen y = true → s'.fdOpen y = true
  /-- The new one is open. -/
  fdOpen_self : s'.fdOpen fd = true
  /-- The other instances are the same. -/
  alloc : ∀ v, v ≠ w → s'.alloc v = s.alloc v
  /-- The new one is allocated. -/
  alloc_self : s'.alloc w = .live
  /-- The content of the others is the same. -/
  wakeup : ∀ v, v ≠ w → s'.wakeup v = s.wakeup v
  /-- The new one has the descriptor. -/
  wakeup_self : s'.wakeup w = ⟨.epoll, false, fd⟩
  /-- The application threads are where they were. -/
  app : s'.app = s.app

namespace Creates

variable {fd : σ}

omit [DecidableEq ι] [DecidableEq σ] [DecidableEq ω] in
/-- An instance that was allocated is another one. -/
theorem ne_of_used (hc : Creates s s' fd w) {v : ω} (hv : s.alloc v ≠ .unused) : v ≠ w := by
  rintro rfl
  exact hv hc.unused

omit [DecidableEq ι] [DecidableEq σ] [DecidableEq ω] in
theorem live_of_ne (hc : Creates s s' fd w) {v : ω} (hv : s'.alloc v = .live) (hvw : v ≠ w) :
    s.alloc v = .live :=
  (hc.alloc v hvw).symm.trans hv

omit [DecidableEq ι] [DecidableEq ω] in
theorem stack (hc : Creates s s' fd w) (y : σ) : (s'.sock y).stack = (s.sock y).stack := by
  by_cases hy : y = fd
  · rw [hy, hc.sock_self]
  · rw [hc.sock y hy]

omit [DecidableEq ι] [DecidableEq σ] [DecidableEq ω] in
/-- The descriptor is no socket. -/
theorem ne_of_stack (hc : Creates s s' fd w) (h : s.LifeInv) {y : σ}
    (hy : (s.sock y).stack.isSome) : y ≠ fd := by
  rintro rfl
  exact Bool.false_ne_true (hc.closed.symm.trans (h.fdOpen y hy))

omit [DecidableEq ι] [DecidableEq σ] [DecidableEq ω] in
theorem stack_self (hc : Creates s s' fd w) (h : s.LifeInv) : (s.sock fd).stack = none :=
  Option.not_isSome_iff_eq_none.1 fun hsome => hc.ne_of_stack h hsome rfl

omit [DecidableEq ι] [DecidableEq σ] [DecidableEq ω] in
/-- No instance has the descriptor yet. -/
theorem epollfd_ne (hc : Creates s s' fd w) (h : s.LifeInv) {v : ω} (hv : s.alloc v = .live) :
    (s.wakeup v).epollfd ≠ fd := by
  rintro rfl
  exact Bool.false_ne_true (hc.closed.symm.trans (h.epollfd v hv).1)

omit [DecidableEq ι] in
/-- The descriptor of an instance is open and has no socket. -/
theorem epollfd (hc : Creates s s' fd w) (h : s.LifeInv) (v : ω) (hv : s'.alloc v = .live) :
    s'.fdOpen (s'.wakeup v).epollfd = true ∧ (s'.sock (s'.wakeup v).epollfd).stack = none := by
  by_cases hvw : v = w
  · rw [hvw, hc.wakeup_self]
    exact ⟨hc.fdOpen_self, (hc.stack fd).trans (hc.stack_self h)⟩
  · obtain ⟨hopen, hnone⟩ := h.epollfd v (hc.live_of_ne hv hvw)
    rw [hc.wakeup v hvw]
    exact ⟨hc.fdOpen _ hopen, (hc.stack _).trans hnone⟩

omit [DecidableEq ι] [DecidableEq σ] in
/-- An instance has a descriptor of its own. -/
theorem unique (hc : Creates s s' fd w) (h : s.LifeInv) (v v' : ω) (hv : s'.alloc v = .live)
    (hv' : s'.alloc v' = .live) (heq : (s'.wakeup v).epollfd = (s'.wakeup v').epollfd) :
    v = v' := by
  by_cases hvw : v = w
  · by_cases hvw' : v' = w
    · rw [hvw, hvw']
    · rw [hvw, hc.wakeup_self, hc.wakeup v' hvw'] at heq
      exact absurd heq.symm (hc.epollfd_ne h (hc.live_of_ne hv' hvw'))
  · by_cases hvw' : v' = w
    · rw [hvw', hc.wakeup_self, hc.wakeup v hvw] at heq
      exact absurd heq (hc.epollfd_ne h (hc.live_of_ne hv hvw))
    · rw [hc.wakeup v hvw, hc.wakeup v' hvw'] at heq
      exact h.unique v v' (hc.live_of_ne hv hvw) (hc.live_of_ne hv' hvw') heq

omit [DecidableEq ι] [DecidableEq ω] in
/-- The instance of an epoll descriptor is allocated, until `lstack_epoll_close` has freed it. -/
theorem epollWakeup (hc : Creates s s' fd w) (h : s.LifeInv) (y : σ) (v : ω)
    (hy : (s'.sock y).stack = none) (hv : (s'.sock y).wakeup = some v) :
    (s'.wakeup v).epollfd = y ∧ (s'.alloc v = .live ∨ ∃ i, s'.app i = .forget y v) := by
  by_cases hyfd : y = fd
  · rw [hyfd, hc.sock_self] at hv
    obtain rfl : w = v := Option.some.inj hv
    rw [hyfd, hc.wakeup_self]
    exact ⟨rfl, .inl hc.alloc_self⟩
  · rw [hc.sock y hyfd] at hy hv
    obtain ⟨hepollfd, hv⟩ := h.epollWakeup y v hy hv
    have hvw : v ≠ w := by
      refine hc.ne_of_used ?_
      rcases hv with hv | ⟨j, hj⟩
      · rw [hv]
        decide
      · have hinv := h.app j
        rw [hj] at hinv
        rw [hinv.1]
        decide
    rw [hc.wakeup v hvw, hc.alloc v hvw, hc.app]
    exact ⟨hepollfd, hv⟩

omit [DecidableEq ι] in
/-- A descriptor that a thread is about to close stays bare. -/
theorem bare (hc : Creates s s' fd w) {fd' : σ} (hb : s.Bare fd') : s'.Bare fd' := by
  refine ⟨hc.fdOpen fd' hb.1, (hc.stack fd').trans hb.2.1, fun v hv => ?_⟩
  by_cases hvw : v = w
  · rw [hvw, hc.wakeup_self]
    rintro rfl
    exact Bool.false_ne_true (hc.closed.symm.trans hb.1)
  · rw [hc.wakeup v hvw]
    exact hb.2.2 v (hc.live_of_ne hv hvw)

end Creates

omit [DecidableEq ι] in
/-- `lstack_do_epoll_create` makes an instance for a new descriptor. -/
theorem LifeInv.create_instance (h : s.LifeInv) {fd : σ} (hclosed : s.fdOpen fd = false)
    (hunused : s.alloc w = .unused) :
    LifeInv { s.modifySock fd fun sock => { sock with wakeup := some w } with
      wakeup := Function.update s.wakeup w ⟨.epoll, false, fd⟩
      alloc := Function.update s.alloc w .live
      fdOpen := Function.update s.fdOpen fd true
      watched := Function.update s.watched w (some k) } := by
  have hc : Creates s { s.modifySock fd fun sock => { sock with wakeup := some w } with
      wakeup := Function.update s.wakeup w ⟨.epoll, false, fd⟩
      alloc := Function.update s.alloc w .live
      fdOpen := Function.update s.fdOpen fd true
      watched := Function.update s.watched w (some k) } fd w :=
    { closed := hclosed
      unused := hunused
      sock := fun y hy => Function.update_of_ne hy ..
      sock_self := Function.update_self ..
      fdOpen := fun y hy => by
        rcases eq_or_ne y fd with rfl | hyfd
        · exact Function.update_self ..
        · exact (Function.update_of_ne hyfd ..).trans hy
      fdOpen_self := Function.update_self ..
      alloc := fun v hv => Function.update_of_ne hv ..
      alloc_self := Function.update_self ..
      wakeup := fun v hv => Function.update_of_ne hv ..
      wakeup_self := Function.update_self ..
      app := rfl }
  refine ⟨fun y hy => hc.fdOpen y (h.fdOpen y (hc.stack y ▸ hy)), hc.epollfd h, hc.unique h,
    fun y v hy hv => ?_, hc.epollWakeup h, fun y v hv => ?_, fun j => ?_, h.closer, fun k => ?_,
    fun k j v hf => ?_, fun v hv => ?_⟩
  · have hy : (s.sock y).stack.isSome := hc.stack y ▸ hy
    rw [hc.sock y (hc.ne_of_stack h hy)] at hv
    have hlive := h.sockWakeup y v hy hv
    exact (hc.alloc v (hc.ne_of_used (by rw [hlive]; decide))).trans hlive
  · -- the entry of the descriptor is linked nowhere
    have hv' : (s.sock y).eventList = some v := by
      rcases eq_or_ne y fd with rfl | hyfd
      · exact (congrArg LifeSock.eventList hc.sock_self).symm.trans hv
      · exact hc.sock y hyfd ▸ hv
    obtain ⟨hy, hw⟩ := h.eventList y v hv'
    rw [hc.sock y (hc.ne_of_stack h hy)]
    exact ⟨hy, hw⟩
  · refine (h.app j).congr (fun v hv => ?_) (fun v hv => ?_) (fun _ _ _ hq => hq)
      fun fd' _ hb => hc.bare hb
    · rw [hc.alloc v (hc.ne_of_used hv), hc.wakeup v (hc.ne_of_used hv)]
      exact ⟨hv, rfl, id⟩
    · refine hc.alloc v (hc.ne_of_used ?_)
      rcases (h.app j).of_retires hv with ⟨hlive, -⟩ | hfreed
      · rw [hlive]
        decide
      · rw [hfreed]
        decide
  · refine (h.stack k).congr (fun y hy => (hc.stack y).trans hy) (fun y v hv hy hw' => ?_)
      fun _ _ hf => hf
    rw [hc.sock y (hc.ne_of_stack h (by rw [hy]; rfl))]
    exact hw'
  · rcases eq_or_ne v w with rfl | hvw
    · rw [hc.alloc_self]
      decide
    · rw [hc.alloc v hvw]
      exact h.fetched k j v hf
  · rcases eq_or_ne v w with rfl | hvw
    · rw [hc.alloc_self] at hv
      cases hv
    · rw [hc.alloc v hvw] at hv
      rw [hc.wakeup v hvw]
      exact h.retired v hv

/-! ## The stack threads -/

omit [DecidableEq ι] [DecidableEq ω] in
/-- A socket begins or ends. No other stack has it, and no instance. -/
theorem LifeInv.renew (h : s.LifeInv) (sock : LifeSock (Fin stackNum) ω) (isOpen : Bool)
    (pcs : Fin stackNum → EventPc σ ω) (hx : s.fdOpen x = true → (s.sock x).stack ≠ none)
    (hwakeup : sock.wakeup = none) (hlinked : sock.eventList = none)
    (hopen : sock.stack.isSome → isOpen = true)
    (hpcs : ∀ j, pcs j = .idle ∨ pcs j = s.stackPc j ∧ (s.sock x).stack ≠ some j) :
    LifeInv { s with
      sock := Function.update s.sock x sock
      fdOpen := Function.update s.fdOpen x isOpen
      stackPc := pcs } := by
  have hsock : ∀ y, y ≠ x → Function.update s.sock x sock y = s.sock y := fun y hy =>
    Function.update_of_ne hy ..
  have hother : ∀ y, y ≠ x → Function.update s.fdOpen x isOpen y = s.fdOpen y := fun y hy =>
    Function.update_of_ne hy ..
  -- a descriptor without a socket is another one
  have hbare : ∀ {y}, s.fdOpen y = true → (s.sock y).stack = none → y ≠ x := by
    rintro y hy hnone rfl
    exact hx hy hnone
  have hstack : ∀ {y}, s.fdOpen y = true → (s.sock y).stack = none →
      (Function.update s.sock x sock y).stack = none := fun {y} hy hnone => by
    rwa [hsock y (hbare hy hnone)]
  -- the stack threads have gone on, or have no instance any more
  have hquiet : ∀ j v, s.Quiet j v → v ∉ s.wakeupList j ∧ (pcs j).links? ≠ some v := by
    rintro j v ⟨hmem, hlinks⟩
    rcases hpcs j with hj | ⟨hj, -⟩
    · exact ⟨hmem, by rw [hj]; simp [EventPc.links?]⟩
    · exact ⟨hmem, hj ▸ hlinks⟩
  refine ⟨fun y hy => ?_, fun v hv => ?_, h.unique, fun y v hy hv => ?_, fun y v hy hv => ?_,
    fun y v hv => ?_, fun j => ?_, h.closer, fun j => ?_, h.fetched,
    fun v hv => ⟨(h.retired v hv).1, fun j => hquiet j v ((h.retired v hv).2 j)⟩⟩
  · -- a socket is open when it begins
    by_cases hyx : y = x
    · subst hyx
      simp only [Function.update_self] at hy ⊢
      exact hopen hy
    · simp only [hsock y hyx] at hy
      exact (hother y hyx).trans (h.fdOpen y hy)
  · -- no instance has the descriptor
    obtain ⟨hfd, hnone⟩ := h.epollfd v hv
    exact ⟨(hother _ (hbare hfd hnone)).trans hfd, hstack hfd hnone⟩
  · -- the new socket belongs to no instance yet
    by_cases hyx : y = x
    · subst hyx
      simp only [Function.update_self, hwakeup] at hv
      cases hv
    · simp only [hsock y hyx] at hy hv
      exact h.sockWakeup y v hy hv
  · by_cases hyx : y = x
    · subst hyx
      simp only [Function.update_self, hwakeup] at hv
      cases hv
    · simp only [hsock y hyx] at hy hv
      exact h.epollWakeup y v hy hv
  · by_cases hyx : y = x
    · subst hyx
      simp only [Function.update_self, hlinked] at hv
      cases hv
    · simp only [hsock y hyx] at hv ⊢
      exact h.eventList y v hv
  · -- neither do the application threads have it
    refine (h.app j).congr (fun v hv => ⟨hv, rfl, id⟩) (fun _ _ => rfl)
      (fun j v _ hq => hquiet j v hq) fun fd _ hb => ?_
    exact ⟨(hother fd (hbare hb.1 hb.2.1)).trans hb.1, hstack hb.1 hb.2.1, hb.2.2⟩
  · -- a stack thread that is in a function has another socket
    rcases hpcs j with hj | ⟨hj, hxj⟩
    · simp only [hj]
      trivial
    · simp only [hj]
      have hne : ∀ {y}, (s.sock y).stack = some j → y ≠ x := by
        rintro y hy rfl
        exact hxj hy
      refine (h.stack j).congr (fun y hy => ?_) (fun y v _ hy hv => ?_) fun _ _ hf => hf
      · simp only [hsock y (hne hy)]
        exact hy
      · simp only [hsock y (hne hy)]
        exact hv

omit [DecidableEq ι] [DecidableEq ω] in
/-- A stack creates a socket. -/
theorem LifeInv.socket (h : s.LifeInv) (hclosed : s.fdOpen x = false) :
    LifeInv { s.modifySock x fun sock =>
        { resetSockData sock with stack := some k, eventList := none } with
      fdOpen := Function.update s.fdOpen x true } ∧
      (s.modifySock x resetSockData).LifeInv := by
  have hnone : (s.sock x).stack = none := by
    cases hs : (s.sock x).stack with
    | none => rfl
    | some k => exact absurd (h.fdOpen x (by rw [hs]; rfl)) (by rw [hclosed]; decide)
  have hlinked : (s.sock x).eventList = none := by
    cases hs : (s.sock x).eventList with
    | none => rfl
    | some w =>
      have hlive := (h.eventList x w hs).1
      rw [hnone] at hlive
      cases hlive
  have hx : s.fdOpen x = true → (s.sock x).stack ≠ none := by simp [hclosed]
  have hpcs : ∀ j, s.stackPc j = .idle ∨ s.stackPc j = s.stackPc j ∧ (s.sock x).stack ≠ some j :=
    fun j => .inr ⟨rfl, by simp [hnone]⟩
  refine ⟨h.renew _ true _ hx rfl rfl (fun _ => rfl) hpcs, ?_⟩
  have hfail := h.renew (resetSockData (s.sock x)) false _ hx rfl hlinked
    (fun hs => by cases hs) hpcs
  rwa [show Function.update s.fdOpen x false = s.fdOpen by
    rw [← hclosed, Function.update_eq_self]] at hfail

omit [DecidableEq ι] [DecidableEq ω] in
/-- `gazelle_clean_sock` resets a socket, which was unlinked. -/
theorem LifeInv.resetSock (h : s.LifeInv) (hpc : s.stackPc k = .resetSock x)
    (hlinked : (s.sock x).eventList = none) :
    LifeInv { (s.modifySock x resetSockData).stackGoto k .idle with
      fdOpen := Function.update s.fdOpen x false } := by
  have hinv := h.stack k
  rw [hpc] at hinv
  have hstack : (s.sock x).stack = some k := hinv
  refine h.renew _ false (Function.update s.stackPc k .idle) (fun _ => by simp [hstack]) rfl
    hlinked (fun hs => by cases hs) fun j => ?_
  by_cases hj : j = k
  · subst hj
    exact .inl (Function.update_self ..)
  · refine .inr ⟨Function.update_of_ne hj .., fun heq => hj ?_⟩
    rw [hstack] at heq
    exact (Option.some.inj heq).symm

omit [DecidableEq ι] [DecidableEq σ] [DecidableEq ω] in
/-- A stack thread goes on without a write. It does not come to link a marked instance. -/
theorem LifeInv.stackGoto (h : s.LifeInv) {pc : EventPc σ ω} (hpc : s.StackInv k pc)
    (hlinks : ∀ w, (s.wakeup w).type = .close → pc.links? = some w →
      (s.stackPc k).links? = some w) : (s.stackGoto k pc).LifeInv := by
  have hsame : SameRefs s (s.stackGoto k pc) :=
    ⟨fun _ => rfl, fun _ => rfl, fun _ => rfl, fun _ h => h, rfl, rfl⟩
  exact h.stack_same k pc hsame rfl rfl rfl (fun _ => .inl rfl) (fun _ _ => rfl)
    (fun w hw hq => ⟨hq.1, fun hl => hq.2 (hlinks w hw hl)⟩) h.eventList
    (hsame.stackInv (fun _ _ hf => hf) hpc)

omit [DecidableEq ι] [DecidableEq ω] in
/-- A stack thread writes to a socket, but not to its references. -/
theorem LifeInv.modifySock_stackGoto (h : s.LifeInv) {pc : EventPc σ ω}
    {f : LifeSock (Fin stackNum) ω → LifeSock (Fin stackNum) ω}
    (hf : (f (s.sock x)).stack = (s.sock x).stack ∧ (f (s.sock x)).wakeup = (s.sock x).wakeup)
    (hlink : ∀ w, (f (s.sock x)).eventList = some w → (s.sock x).eventList = some w ∨
      (s.sock x).stack.isSome ∧ (s.sock x).wakeup = some w)
    (hpc : s.StackInv k pc)
    (hlinks : ∀ w, pc.links? = some w → (s.stackPc k).links? = some w) :
    ((s.modifySock x f).stackGoto k pc).LifeInv := by
  have hsame : SameRefs s ((s.modifySock x f).stackGoto k pc) :=
    .of_sock (x := x) rfl hf.1 hf.2 rfl rfl rfl
  exact h.stack_same k pc hsame rfl rfl rfl (fun _ => .inl rfl) (fun _ _ => rfl)
    (fun w _ hq => ⟨hq.1, fun hl => hq.2 (hlinks w hl)⟩) (h.linked_update hlink)
    (hsame.stackInv (fun _ _ hf => hf) hpc)

omit [DecidableEq ι] [DecidableEq σ] in
/-- The other lists are the same when a wake-up is linked, and the list itself has got only it. -/
private theorem linkWakeup_spec (s : LifeSys stackNum ι σ ω) (k : Fin stackNum) (w : ω) :
    (∀ j, j ≠ k → (s.linkWakeup k w).wakeupList j = s.wakeupList j) ∧
      (∀ v, v ∈ (s.linkWakeup k w).wakeupList k → v ∈ s.wakeupList k ∨ v = w) ∧
      s.linkWakeup k w = { s with wakeupList := (s.linkWakeup k w).wakeupList } := by
  unfold linkWakeup
  split
  · exact ⟨fun _ _ => rfl, fun _ => .inl, rfl⟩
  · refine ⟨fun j hj => Function.update_of_ne hj .., fun v hv => ?_, rfl⟩
    simpa using hv

omit [DecidableEq ι] [DecidableEq σ] in
/-- A stack thread links the wake-up of an instance. -/
theorem LifeInv.link (h : s.LifeInv) {pc pc' : EventPc σ ω} {t : LifeSys stackNum ι σ ω}
    (hpc : s.stackPc k = pc) (hlinks : pc.links? = some w) (hsame : SameRefs s t)
    (hsock : t.sock = s.sock) (happ : t.app = s.app) (hpcs : t.stackPc = s.stackPc)
    (hevents : t.kernelEvents = s.kernelEvents) (hnum : t.kernelEventNum = s.kernelEventNum)
    (hlist : t.wakeupList = s.wakeupList) (hlinks' : pc'.links? = none)
    (hpc' : s.StackInv k pc') : ((t.linkWakeup k w).stackGoto k pc').LifeInv := by
  obtain ⟨hother, hmem, heq⟩ := linkWakeup_spec t k w
  have hsame' : SameRefs s ((t.linkWakeup k w).stackGoto k pc') := by
    rw [heq]
    exact ⟨hsame.stack, hsame.wakeup, hsame.epollfd, hsame.type, hsame.alloc, hsame.fdOpen⟩
  refine h.stack_same k pc' hsame' ?_ ?_ ?_ (fun j => .inl ?_)
    (fun j hj => (hother j hj).trans (congrFun hlist j)) (fun v _ hq => ⟨fun hv => ?_, ?_⟩)
    (fun y v hv => ?_) (hsame'.stackInv (fun j v hf => ?_) hpc')
  · rw [heq]
    exact happ
  · rw [heq, ← hpcs]
    rfl
  · rw [heq]
    exact hevents
  · rw [heq]
    exact congrFun hnum j
  · rcases hmem v hv with hv | rfl
    · exact hq.1 (hlist ▸ hv)
    · exact hq.2 (hpc ▸ hlinks)
  · rw [hlinks']
    simp
  · rw [heq] at hv
    exact h.eventList y v (hsock ▸ hv)
  · rw [heq]
    show (j : ℤ) < t.kernelEventNum k ∧ (t.kernelEvents k)[j]? = some v
    rw [hevents, hnum]
    exact hf

omit [DecidableEq ι] in
/-- An access of a stack thread. -/
theorem LifeInv.stackStep (h : s.LifeInv) {outdated : Bool}
    (hc : ∀ x, s.stackPc k = .resetSock x → (s.sock x).eventList = none)
    (hs : s.stackStep k outdated = some s') : s'.LifeInv := by
  have hinv := h.stack k
  cases hpc : s.stackPc k with
  | idle =>
    rw [LifeSys.stackStep, hpc] at hs
    cases hs
  | addType x w event =>
    rw [hpc] at hinv
    rw [LifeSys.stackStep, hpc] at hs
    -- a marked instance is not added to, and one that is not marked may be linked
    dsimp only at hs
    split at hs
    · obtain rfl := Option.some.inj hs
      exact h.stackGoto trivial fun v _ hl => by cases hl
    · rename_i htype
      obtain rfl := Option.some.inj hs
      refine h.stackGoto hinv fun v hv hl => absurd (.inl ?_) htype
      cases hl
      exact hv
  | addEpoll x w event =>
    rw [hpc] at hinv
    rw [LifeSys.stackStep, hpc] at hs
    dsimp only at hs
    -- what was read is linked with the next access
    split at hs
    · obtain rfl := Option.some.inj hs
      exact h.stackGoto hinv fun v _ hl => by rw [hpc]; exact hl
    · obtain rfl := Option.some.inj hs
      exact h.stackGoto trivial fun v _ hl => by rw [hpc]; exact hl
  | addSection x w event =>
    rw [hpc] at hinv
    rw [LifeSys.stackStep, hpc] at hs
    dsimp only at hs
    split at hs
    · obtain rfl := Option.some.inj hs
      exact h.stackGoto trivial fun v _ hl => by cases hl
    · obtain rfl := Option.some.inj hs
      refine h.modifySock_stackGoto ⟨rfl, rfl⟩ (fun v hv => ?_) trivial fun v hl => by
        rw [hpc]
        exact hl
      -- the event list of the socket is that of the instance it has
      dsimp only at hv
      split at hv
      · exact .inr ⟨by rw [hinv.1]; rfl, by rw [hinv.2]; exact hv⟩
      · exact .inl hv
  | link w =>
    rw [LifeSys.stackStep, hpc] at hs
    obtain rfl := Option.some.inj hs
    exact h.link hpc rfl ⟨fun _ => rfl, fun _ => rfl, fun _ => rfl, fun _ h => h, rfl, rfl⟩ rfl rfl
      rfl rfl rfl rfl rfl trivial
  | wakeupStack =>
    rw [LifeSys.stackStep, hpc] at hs
    dsimp only at hs
    split at hs
    · obtain rfl := Option.some.inj hs
      exact h.stackGoto trivial fun v _ hl => by cases hl
    · rename_i w rest hlist
      obtain rfl := Option.some.inj hs
      -- the first instance of the list leaves it
      refine h.stack_same k .wakeupStack
        ⟨fun _ => rfl, fun _ => rfl, fun _ => rfl, fun _ h => h, rfl, rfl⟩ rfl ?_ rfl
        (fun _ => .inl rfl) (fun j hj => Function.update_of_ne hj ..)
        (fun v _ hq => ⟨fun hv => hq.1 ?_, by simp [EventPc.links?]⟩) h.eventList trivial
      · rw [← hpc, Function.update_eq_self]
        rfl
      · simp only [unlinkWakeup, Function.update_self] at hv
        exact (List.mem_filter.1 hv).1
  | kernelLoop j =>
    rw [LifeSys.stackStep, hpc] at hs
    dsimp only at hs
    -- the events of the kernel have their instances until the loop is done
    split at hs
    · rename_i hlt
      obtain ⟨w, hw, rfl⟩ := Option.map_eq_some_iff.1 hs
      exact h.stackGoto ⟨hlt, hw⟩ fun v _ hl => by cases hl
    · obtain rfl := Option.some.inj hs
      refine h.stack_same k .idle
        ⟨fun _ => rfl, fun _ => rfl, fun _ => rfl, fun _ h => h, rfl, rfl⟩ rfl rfl rfl
        (fun j => ?_) (fun _ _ => rfl) (fun v _ hq => ⟨hq.1, by simp [EventPc.links?]⟩)
        h.eventList trivial
      by_cases hj : j = k
      · subst hj
        exact .inr ⟨rfl, Function.update_self ..⟩
      · exact .inl (Function.update_of_ne hj ..)
  | kernelType j w =>
    rw [hpc] at hinv
    rw [LifeSys.stackStep, hpc] at hs
    dsimp only at hs
    split at hs
    · obtain rfl := Option.some.inj hs
      exact h.stackGoto trivial fun v _ hl => by cases hl
    · rename_i htype
      obtain rfl := Option.some.inj hs
      refine h.stackGoto hinv fun v hv hl => absurd ?_ htype
      -- the instance was not marked, so that it is not freed
      cases hl
      exact hv
  | kernelLink j w =>
    rw [LifeSys.stackStep, hpc] at hs
    obtain rfl := Option.some.inj hs
    exact h.link hpc rfl (.of_wakeup (w := w) rfl rfl id rfl rfl rfl) rfl rfl rfl rfl rfl rfl rfl
      trivial
  | cleanSock x =>
    rw [hpc] at hinv
    rw [LifeSys.stackStep, hpc] at hs
    dsimp only at hs
    -- a socket is unlinked by its own stack
    split at hs
    · split at hs
      · obtain rfl := Option.some.inj hs
        exact h.modifySock_stackGoto ⟨rfl, rfl⟩ (fun v hv => by cases hv) hinv
          fun v hl => by cases hl
      · obtain rfl := Option.some.inj hs
        exact h.stackGoto hinv fun v _ hl => by cases hl
    · obtain rfl := Option.some.inj hs
      exact h.stackGoto hinv fun v _ hl => by cases hl
  | resetSock x =>
    rw [LifeSys.stackStep, hpc] at hs
    obtain rfl := Option.some.inj hs
    -- the condition says that it is linked nowhere
    exact h.resetSock hpc (hc x hpc)

/-! ## Runs -/

omit [DecidableEq ι] [DecidableEq σ] [DecidableEq ω] in
/-- The kernel reports events to a kernel-event thread. -/
theorem LifeInv.fetch_update (h : s.LifeInv) (hdone : ¬ 0 < s.kernelEventNum k) (l : List ω)
    (num : ℤ)
    (hl : ∀ (i : ℕ) w, i < num → l[i]? = some w → s.alloc w ≠ .freed) :
    LifeInv { s with
      kernelEvents := Function.update s.kernelEvents k l
      kernelEventNum := Function.update s.kernelEventNum k num } := by
  refine h.same ⟨fun _ => rfl, fun _ => rfl, fun _ => rfl, fun _ h => h, rfl, rfl⟩
    (fun _ _ _ hq => hq) h.eventList (fun _ _ _ hi => hi)
    (fun i => (h.app i).congr (fun v hv => ⟨hv, rfl, id⟩) (fun _ _ => rfl) (fun _ _ _ hq => hq)
      fun _ _ hb => hb) h.closer (fun j => ?_) fun j i w hf => ?_
  · refine (h.stack j).congr (fun _ hy => hy) (fun _ _ _ _ hw => hw) fun i w hf => ?_
    have hjk : j ≠ k := by
      rintro rfl
      have hi := hf.1
      omega
    simpa only [Fetched, Function.update_of_ne hjk] using hf
  · by_cases hjk : j = k
    · subst hjk
      simp only [Fetched, Function.update_self] at hf
      exact hl i w hf.1 hf.2
    · simp only [Fetched, Function.update_of_ne hjk] at hf
      exact h.fetched j i w hf

omit [DecidableEq σ] [DecidableEq ω] in
/-- A thread calls `lstack_epoll_ctl`. -/
theorem LifeInv.ctl (h : s.LifeInv) (hpc : s.app i = .idle) {epfd : σ}
    (hw : (s.sock epfd).wakeup = some w) (op : CtlOp) (events : EpollMask) :
    (s.goto i (.ctl op w x events)).LifeInv := by
  refine h.goto (by simp [hpc]) (by simp [AppPc.closing?]) (show s.alloc w ≠ .unused from ?_)
  cases hs : (s.sock epfd).stack with
  | some k =>
    rw [h.sockWakeup epfd w (by rw [hs]; rfl) hw]
    decide
  | none =>
    rcases (h.epollWakeup epfd w hs hw).2 with hlive | ⟨j, hj⟩
    · rw [hlive]
      decide
    · have hinv := h.app j
      rw [hj] at hinv
      rw [hinv.1]
      decide

omit [DecidableEq σ] [DecidableEq ω] in
/-- A thread calls `lstack_epoll_close`. -/
theorem LifeInv.close (h : s.LifeInv) (hpc : s.app i = .idle) {fd : σ}
    (hw : (s.sock fd).wakeup = some w) (hfd : (s.wakeup w).epollfd = fd)
    (hc : ∀ j, (s.app j).closing? ≠ some fd) : (s.goto i (.mark fd w)).LifeInv := by
  refine h.goto (by simp [hpc]) (fun fd' hfd' => .inr ?_) ⟨hfd, ?_⟩
  · cases hfd'
    exact hc
  · cases hs : (s.sock fd).stack with
    | some k => exact h.sockWakeup fd w (by rw [hs]; rfl) hw
    | none =>
      refine (h.epollWakeup fd w hs hw).2.resolve_right ?_
      rintro ⟨j, hj⟩
      exact hc j (by rw [hj]; rfl)

/-- A step that meets the condition keeps the invariant. -/
theorem LifeInv.step (h : s.LifeInv) {a : LifeAct stackNum ι σ ω} (hc : s.Condition a)
    (hs : s.step a = some s') : s'.LifeInv := by
  cases a with
  | create i fd w k =>
    simp only [LifeSys.step] at hs
    split at hs
    · split at hs
      · rename_i hfresh
        obtain rfl := Option.some.inj hs
        exact h.create_instance hfresh.1 hfresh.2
      · cases hs
    · cases hs
  | ctl i op epfd x events =>
    simp only [LifeSys.step] at hs
    split at hs
    · rename_i hpc hw
      split at hs
      · obtain rfl := Option.some.inj hs
        exact h.ctl hpc hw op events
      · cases hs
    · cases hs
  | close i fd =>
    simp only [LifeSys.step] at hs
    split at hs
    · rename_i hpc hw
      split at hs
      · rename_i hfd
        obtain rfl := Option.some.inj hs
        exact h.close hpc hw hfd hc
      · cases hs
    · cases hs
  | app i env =>
    rcases Option.or_eq_some_iff.1 hs with hs | ⟨-, hs⟩
    · exact h.ctlStep hc hs
    · exact h.closeStep hc hs
  | socket k x ok =>
    simp only [LifeSys.step] at hs
    split at hs
    · split at hs
      · cases hs
      · rename_i hclosed
        have hclosed : s.fdOpen x = false := by simpa using hclosed
        split at hs
        · obtain rfl := Option.some.inj hs
          exact (h.socket hclosed).1
        · obtain rfl := Option.some.inj hs
          exact (h.socket (k := k) hclosed).2
    · cases hs
  | cleanSock k x =>
    simp only [LifeSys.step] at hs
    split at hs
    · split at hs
      · rename_i hstack
        obtain rfl := Option.some.inj hs
        exact h.stackGoto hstack fun v _ hl => by cases hl
      · cases hs
    · cases hs
  | addSockEvent k x event =>
    simp only [LifeSys.step] at hs
    split at hs
    · split at hs
      · rename_i hstack
        split at hs
        · exact Option.some.inj hs ▸ h
        · rename_i hw
          obtain rfl := Option.some.inj hs
          exact h.stackGoto ⟨hstack, hw⟩ fun v _ hl => by cases hl
      · cases hs
    · cases hs
  | wakeupStackEpoll k =>
    simp only [LifeSys.step] at hs
    split at hs
    · obtain rfl := Option.some.inj hs
      exact h.stackGoto trivial fun v _ hl => by cases hl
    · cases hs
  | wakeupKernelEvent k =>
    simp only [LifeSys.step] at hs
    split at hs
    · split at hs
      · exact Option.some.inj hs ▸ h
      · obtain rfl := Option.some.inj hs
        exact h.stackGoto trivial fun v _ hl => by cases hl
    · cases hs
  | stack k outdated => exact h.stackStep hc hs
  | fetch k entries =>
    simp only [LifeSys.step] at hs
    split at hs
    · cases hs
    · rename_i hdone
      cases entries with
      | none =>
        obtain rfl := Option.some.inj hs
        -- no entry is valid after an error
        have hfetch := h.fetch_update hdone (s.kernelEvents k) (-1) fun i w hi => by omega
        rwa [Function.update_eq_self] at hfetch
      | some l =>
        dsimp only at hs
        split at hs
        · obtain rfl := Option.some.inj hs
          exact h.fetch_update hdone l l.length fun i w _ hw => hc l rfl w (List.mem_of_getElem? hw)
        · cases hs

omit [DecidableEq ι] [DecidableEq σ] [DecidableEq ω] in
/-- The invariant holds at the beginning. -/
theorem LifeInv.create (fd : σ) : (create fd : LifeSys stackNum ι σ ω).LifeInv where
  fdOpen x hx := by simp [LifeSys.create] at hx
  epollfd w hw := by simp [LifeSys.create] at hw
  unique w w' hw := by simp [LifeSys.create] at hw
  sockWakeup x w hx := by simp [LifeSys.create] at hx
  epollWakeup x w _ hw := by simp [LifeSys.create] at hw
  eventList x w hw := by simp [LifeSys.create] at hw
  app i := trivial
  closer i j fd' hi := by simp [LifeSys.create, AppPc.closing?] at hi
  stack k := trivial
  fetched k i w hf := by simp [Fetched, LifeSys.create] at hf
  retired w hw := by simp [LifeSys.create] at hw

/-- In a run whose steps all meet the condition no stack thread has a pointer to a freed instance,
and each linked socket is linked in the list of its instance. -/
theorem epoll_instance_alive (hs : (system stackNum ι σ ω).ReachableUnder Condition s) :
    s.Safe := by
  refine LifeInv.safe (Transition.System.invariant_under (I := LifeInv) ?_ ?_ hs)
  · rintro _ ⟨fd, rfl⟩
    exact LifeInv.create fd
  · exact fun s a s' h hc hstep => h.step hc hstep

/-- Whether an access meets the condition is found by looking at all sockets and stacks. -/
instance [Fintype ω] [Fintype σ] (env : AppEnv σ) :
    (pc : AppPc σ ω) → Decidable (s.AppCondition env pc)
  | .ctl .add .. => inferInstanceAs (Decidable (_ ∧ _ ∧ _ ∧ _))
  | .raise .. => inferInstanceAs (Decidable (_ → _ ∧ _))
  | .clean .. => inferInstanceAs (Decidable (_ → ∀ _, _ ∧ _))
  | .free _ w =>
    -- the kernel events that count are finitely many
    decidable_of_iff ((∀ x, (s.sock x).stack.isSome → (s.sock x).wakeup ≠ some w) ∧
        ∀ k, ∀ i < (s.kernelEventNum k).toNat, (s.kernelEvents k)[i]? ≠ some w)
      (and_congr_right fun _ => forall₂_congr fun _ _ => imp_congr_left Int.lt_toNat)
  | .idle | .ctl .mod .. | .ctl .del .. | .modify .. | .delete .. | .next .. | .mark ..
  | .unlink .. |
    .forget .. | .closeFd .. => isTrue trivial

/-- So it is for a step. -/
instance [Fintype ι] [Fintype σ] [Fintype ω] :
    (a : LifeAct stackNum ι σ ω) → Decidable (s.Condition a)
  | .app i env => inferInstanceAs (Decidable (s.AppCondition env (s.app i)))
  | .close _ fd => inferInstanceAs (Decidable (∀ j, (s.app j).closing? ≠ some fd))
  | .stack k _ =>
    decidable_of_iff (∀ x ∈ (s.stackPc k).resets?, (s.sock x).eventList = none)
      (forall_congr' fun _ => imp_congr_left EventPc.mem_resets?)
  | .fetch _ none => isTrue fun _ h => nomatch h
  | .fetch _ (some l) =>
    decidable_of_iff (∀ w ∈ l, s.alloc w ≠ .freed)
      ⟨fun h _ heq => Option.some.inj heq ▸ h, fun h => h l rfl⟩
  | .create .. | .ctl .. | .socket .. | .cleanSock .. | .addSockEvent .. | .wakeupStackEpoll .. |
    .wakeupKernelEvent .. => isTrue trivial

/-- What a step finds when nothing special happens. -/
private def quietEnv : AppEnv (Fin 3) := ⟨0, none, true⟩

/-- What a step finds when the socket can be read. -/
private def readableEnv : AppEnv (Fin 3) := ⟨epollIn, none, true⟩

/-- No descriptor is open. -/
private def closedState : LifeSys 1 Unit (Fin 3) Unit := create 0

/-- Two sockets are added to an instance. The first one can be read already, and the stack raises an
event of the second one. A kernel event is fetched. -/
private def linkedRun : List (LifeAct 1 Unit (Fin 3) Unit) :=
  [.create () 0 () 0, .socket 0 1 true, .socket 0 2 true, .ctl () .add 0 1 epollIn] ++
    List.replicate 4 (.app () readableEnv) ++
    .ctl () .add 0 2 epollIn :: List.replicate 4 (.app () quietEnv) ++
    .addSockEvent 0 2 epollIn :: List.replicate 4 (.stack 0 false) ++ [.fetch 0 (some [()])]

/-- The kernel event is handled, the sockets are closed, and then the instance. -/
private def retiredRun : List (LifeAct 1 Unit (Fin 3) Unit) :=
  .wakeupKernelEvent 0 :: List.replicate 4 (.stack 0 false) ++
    .cleanSock 0 1 :: List.replicate 2 (.stack 0 false) ++
    .cleanSock 0 2 :: List.replicate 2 (.stack 0 false) ++
    .close () 0 :: List.replicate 5 (.app () quietEnv)

/-- An instance to which there are references of all kinds, and the same instance when it was closed
after its sockets. -/
theorem epoll_instance_alive_retired :
    ∃ s t : LifeSys 1 Unit (Fin 3) Unit, (system 1 Unit (Fin 3) Unit).ReachableUnder Condition s ∧
      (system 1 Unit (Fin 3) Unit).ReachableUnder Condition t ∧
      (∀ x ∈ [1, 2], (s.sock x).wakeup = some () ∧ (s.sock x).eventList = some ()) ∧
      s.wakeupList 0 = [()] ∧ s.kernelEvents 0 = [()] ∧ s.kernelEventNum 0 = 1 ∧ s.Safe ∧
      t.alloc () = .freed ∧ t.Safe := by
  have hrun : ((system 1 Unit (Fin 3) Unit).runUnder Condition closedState linkedRun).any (fun s =>
      ((∀ x ∈ [1, 2], (s.sock x).wakeup = some () ∧ (s.sock x).eventList = some ()) ∧
        s.wakeupList 0 = [()] ∧ s.kernelEvents 0 = [()] ∧ s.kernelEventNum 0 = 1) ∧
      ((system 1 Unit (Fin 3) Unit).runUnder Condition s retiredRun).any fun t =>
        t.alloc () = .freed) = true := by
    decide +kernel
  obtain ⟨s, hs, hstate⟩ := (Option.any_eq_true _ _).1 hrun
  obtain ⟨⟨hsock, hlist, hevents, hnum⟩, hretired⟩ := of_decide_eq_true hstate
  obtain ⟨t, ht, hfreed⟩ := (Option.any_eq_true _ _).1 hretired
  have hinit := Transition.System.ReachableUnder.init (M := system 1 Unit (Fin 3) Unit)
    (C := Condition) ⟨0, rfl⟩
  have hlinked := Transition.System.reachableUnder_of_runUnder hinit hs
  have hclosed := Transition.System.reachableUnder_of_runUnder hlinked ht
  exact ⟨s, t, hlinked, hclosed, hsock, hlist, hevents, hnum, epoll_instance_alive hlinked,
    of_decide_eq_true hfreed, epoll_instance_alive hclosed⟩

/-- A socket is added to an instance, which then is closed. -/
private def outlivedRun : List (LifeAct 1 Unit (Fin 3) Unit) :=
  [.create () 0 () 0, .socket 0 1 true, .ctl () .add 0 1 epollIn] ++
    List.replicate 4 (.app () quietEnv) ++ .close () 0 :: List.replicate 5 (.app () quietEnv)

/-- The socket still refers to the instance, which is freed. -/
theorem epoll_instance_freed :
    ¬ ∀ s : LifeSys 1 Unit (Fin 3) Unit, (system 1 Unit (Fin 3) Unit).Reachable s → s.Safe := by
  intro hclaim
  have hrun : ((system 1 Unit (Fin 3) Unit).run closedState outlivedRun).any (fun s =>
      (s.sock 1).stack.isSome ∧ (s.sock 1).wakeup = some () ∧ s.alloc () = .freed) = true := by
    decide +kernel
  obtain ⟨s, hs, hstate⟩ := (Option.any_eq_true _ _).1 hrun
  obtain ⟨hlive, hwakeup, hfreed⟩ := of_decide_eq_true hstate
  have hinit := Transition.System.Reachable.init (M := system 1 Unit (Fin 3) Unit) ⟨0, rfl⟩
  have hreach := Transition.System.reachable_of_run hinit hs
  exact (hclaim s hreach).sock 1 () hlive hwakeup hfreed

end LifeSys

end Gazelle
