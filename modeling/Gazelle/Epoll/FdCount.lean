import Gazelle.Counter.Subsets
import Gazelle.Epoll.Lifetime
import Gazelle.Lists.Linked
import Mathlib.Tactic.Ring

/-!
# The number of descriptors of an epoll instance on each stack

`lstack_epoll_ctl` counts in `stack_fd_cnt` how many sockets of each stack are registered in the
instance, and `update_epoll_max_stack` looks for the stack that has most of them. The counter is
raised by every `EPOLL_CTL_ADD` and lowered by every `EPOLL_CTL_DEL` for each socket of the
`listen_next` chain; `gazelle_clean_sock` does not know it. There are fewer than `2 ^ 31`
descriptors, so that a counter that is right does not overflow.

* `FdCountSys.system`: the calls in any order;
* `FdCountSys.findMaxCntStack_spec`: the stack that is found has the largest counter;
* `stack_fd_cnt_registered_iff`: along which runs the counters are the numbers of sockets.
-/

namespace Gazelle

/-- `struct lwip_sock`, on one of `n` stacks, for descriptors `σ` and instances `ω`. -/
structure CountSock (n : ℕ) (σ ω : Type*) where
  /-- `stack`, `NULL` unless there is a socket. -/
  stack : Option (Fin n)
  /-- `wakeup`. -/
  wakeup : Option ω
  /-- It was added to `wakeup`, and not deleted since. -/
  added : Bool
  /-- `listen_next`. -/
  listenNext : Option σ
  deriving DecidableEq

/-- The sockets and the instances. -/
structure FdCountSys (n : ℕ) (σ ω : Type*) where
  /-- The sockets. -/
  sock : σ → CountSock n σ ω
  /-- The instances that exist. -/
  live : ω → Bool
  /-- `epollfd` of the instances. -/
  epollfd : ω → σ
  /-- `stack_fd_cnt` of the instances. -/
  stackFdCnt : ω → Fin n → ℤ
  /-- `max_stack` of the instances. -/
  maxStack : ω → Option (Fin n)
  /-- `tick` of `find_max_cnt_stack`. -/
  tick : BitVec 16

/-- The steps; `chain` are the sockets that are found by following `listen_next`. -/
inductive FdCountAct (n : ℕ) (σ ω : Type*)
  /-- `lstack_do_epoll_create` for a descriptor of the kernel, with the block that `calloc`
  returns. -/
  | create (wakeup : ω) (fd : σ)
  /-- `lstack_epoll_close`. -/
  | epollClose (wakeup : ω)
  /-- `lstack_epoll_ctl`; `none` is an operation that does not exist. -/
  | ctl (epfd : σ) (op : Option CtlOp) (fd : σ) (chain : List σ)
  /-- A stack makes a socket. -/
  | socket (fd : σ) (stack : Fin n)
  /-- A stack makes a shadow of a listening socket. -/
  | shadow (fd : σ) (chain : List σ) (shadow : σ) (stack : Fin n)
  /-- `gazelle_clean_sock`. -/
  | cleanSock (fd : σ)

open Counting

namespace FdCountSys

variable {n : ℕ} {σ ω : Type*}

/-! ## The stack that is found -/

section Found

variable [NeZero n]

/-- The loop of `find_max_cnt_stack`, with `max_index` and `all_same_cnt`. -/
def findMaxLoop (stackCount : Fin n → ℤ) : List (Fin n) → Fin n × Bool → Fin n × Bool
  | [], found => found
  | i :: rest, (maxIndex, allSameCnt) =>
    findMaxLoop stackCount rest
      (if stackCount i > stackCount maxIndex then i else maxIndex,
        allSameCnt && stackCount i = stackCount 0)

/-- `find_max_cnt_stack`, with `tick` afterwards. -/
def findMaxCntStack (stackCount : Fin n → ℤ) (lastStack : Option (Fin n)) (tick : BitVec 16) :
    Fin n × BitVec 16 :=
  let found := findMaxLoop stackCount (List.finRange n).tail (0, true)
  if found.2 then
    match lastStack with
    | some k => (k, tick)
    | none => (Fin.ofNat n tick.toNat, tick + 1)
  else (found.1, tick)

/-- The stack found so far has the largest counter of those seen. -/
theorem findMaxLoop_spec {stackCount : Fin n → ℤ} {l : List (Fin n)} {found : Fin n × Bool}
    (seen : List (Fin n)) (hmax : ∀ j ∈ seen, stackCount j ≤ stackCount found.1)
    (hsame : found.2 = true → ∀ j ∈ seen, stackCount j = stackCount 0) :
    (∀ j ∈ seen ++ l, stackCount j ≤ stackCount (findMaxLoop stackCount l found).1) ∧
      ((findMaxLoop stackCount l found).2 = true →
        ∀ j ∈ seen ++ l, stackCount j = stackCount 0) := by
  induction l generalizing found seen with
  | nil =>
    rw [List.append_nil]
    exact ⟨hmax, hsame⟩
  | cons i l ih =>
    obtain ⟨m, same⟩ := found
    rw [List.append_cons, findMaxLoop]
    refine ih (seen ++ [i]) (fun j hj => ?_) (fun h j hj => ?_)
    · dsimp only
      rcases List.mem_append.1 hj with hj | hj
      · have := hmax j hj
        split
        · exact Int.le_trans this (Int.le_of_lt ‹_›)
        · exact this
      · rw [List.mem_singleton.1 hj]
        split
        · exact Int.le_refl _
        · exact Int.not_lt.1 ‹_›
    · rw [Bool.and_eq_true, decide_eq_true_eq] at h
      rcases List.mem_append.1 hj with hj | hj
      · exact hsame h.1 j hj
      · rw [List.mem_singleton.1 hj]
        exact h.2

/-- The stack that `find_max_cnt_stack` returns has the largest counter. -/
theorem findMaxCntStack_spec (stackCount : Fin n → ℤ) (last : Option (Fin n)) (tick : BitVec 16)
    (i : Fin n) : stackCount i ≤ stackCount (findMaxCntStack stackCount last tick).1 := by
  have hrange : List.finRange n = 0 :: (List.finRange n).tail := by
    obtain ⟨m, rfl⟩ := Nat.exists_eq_succ_of_ne_zero (NeZero.ne n)
    rw [List.finRange_succ]
    rfl
  have hmem : i ∈ [0] ++ (List.finRange n).tail := by
    rw [List.singleton_append, ← hrange]
    exact List.mem_finRange i
  obtain ⟨hmax, hsame⟩ :=
    @findMaxLoop_spec n _ stackCount (List.finRange n).tail (0, true) [0]
    (fun j hj => by rw [List.mem_singleton.1 hj])
    (fun _ j hj => by rw [List.mem_singleton.1 hj])
  unfold findMaxCntStack
  dsimp only
  split
  · next h =>
    have hall : ∀ j, stackCount j = stackCount 0 := by
      intro j
      refine hsame h j ?_
      rw [List.singleton_append, ← hrange]
      exact List.mem_finRange j
    rw [hall i]
    split
    · next k => exact Int.le_of_eq (hall k).symm
    · exact Int.le_of_eq (hall _).symm
  · exact hmax i hmem

end Found

/-! ## The functions -/

variable [DecidableEq σ] [DecidableEq ω] (s : FdCountSys n σ ω)

/-- Write to a socket. -/
def modify (x : σ) (f : CountSock n σ ω → CountSock n σ ω) : FdCountSys n σ ω :=
  { s with sock := Function.update s.sock x (f (s.sock x)) }

/-- Add to a counter. -/
def count (w : ω) (k : Fin n) (d : ℤ) : FdCountSys n σ ω :=
  { s with
    stackFdCnt := Function.update s.stackFdCnt w
      (Function.update (s.stackFdCnt w) k (s.stackFdCnt w k + d)) }

/-- The `switch` of `lstack_epoll_ctl` for one socket, which must have a stack. -/
def ctlSock (op : CtlOp) (w : ω) (s : FdCountSys n σ ω) (x : σ) : Option (FdCountSys n σ ω) :=
  (s.sock x).stack.map fun k =>
    match op with
    | .add => (s.modify x fun y => { y with wakeup := some w, added := true }).count w k 1
    | .mod => s
    | .del => (s.modify x fun y => { y with added := false }).count w k (-1)

/-- The sockets found by following `listen_next`. -/
def Chain (fd : σ) (chain : List σ) : Prop :=
  Linked (fun x => (s.sock x).listenNext) (some fd) chain

/-- Whether these are the sockets behind `fd` is decidable. -/
instance (fd : σ) (chain : List σ) : Decidable (s.Chain fd chain) :=
  inferInstanceAs (Decidable (Linked _ _ _))

/-- No socket and no instance has the descriptor. -/
def Unused (fd : σ) : Prop := (s.sock fd).stack = none ∧ (s.sock fd).wakeup = none

/-- Whether a descriptor is unused is decidable. -/
instance (fd : σ) : Decidable (s.Unused fd) := inferInstanceAs (Decidable (_ ∧ _))

section Steps

variable [NeZero n]

/-- `update_epoll_max_stack`. -/
def updateEpollMaxStack (w : ω) : FdCountSys n σ ω :=
  let found := findMaxCntStack (s.stackFdCnt w) (s.maxStack w) s.tick
  { s with maxStack := Function.update s.maxStack w (some found.1), tick := found.2 }

/-- `lstack_epoll_ctl`. -/
def epollCtl (epfd : σ) (op : Option CtlOp) (fd : σ) (chain : List σ) :
    Option (FdCountSys n σ ω) :=
  if epfd = fd then some s
  else
    match (s.sock epfd).wakeup with
    | none => some s
    | some w =>
      if (s.sock fd).stack = none then some s
      else
        match op with
        | none => some s
        | some op =>
          if s.live w ∧ s.Chain fd chain then
            (chain.foldlM (ctlSock op w) s).map (updateEpollMaxStack · w)
          else none

/-- No socket and no instance. -/
def Initial : Prop :=
  (∀ x, s.sock x = ⟨none, none, false, none⟩) ∧ ∀ w, s.live w = false

/-- One step. -/
def step (s : FdCountSys n σ ω) : FdCountAct n σ ω → Option (FdCountSys n σ ω)
  | .create w fd =>
    if s.live w = false ∧ s.Unused fd then
      some (updateEpollMaxStack
        { s.modify fd fun y => { y with wakeup := some w } with
          live := Function.update s.live w true
          epollfd := Function.update s.epollfd w fd
          stackFdCnt := Function.update s.stackFdCnt w 0
          maxStack := Function.update s.maxStack w none } w)
    else none
  | .epollClose w =>
    if s.live w then
      some { s.modify (s.epollfd w) fun y => { y with wakeup := none } with
        live := Function.update s.live w false }
    else none
  | .ctl epfd op fd chain => s.epollCtl epfd op fd chain
  | .socket fd k =>
    if s.Unused fd then some (s.modify fd fun _ => ⟨some k, none, false, none⟩) else none
  | .shadow fd chain x k =>
    if s.Unused x ∧ (s.sock fd).stack ≠ none ∧ x ∉ chain ∧ s.Chain fd chain then
      chain.getLast?.map fun z =>
        (s.modify x fun _ => ⟨some k, none, false, none⟩).modify z fun y =>
          { y with listenNext := some x }
    else none
  | .cleanSock fd =>
    if (s.sock fd).stack = none then some s
    else some (s.modify fd fun _ => ⟨none, none, false, none⟩)

/-- The calls in any order. -/
def system (n : ℕ) [NeZero n] (σ ω : Type*) [DecidableEq σ] [DecidableEq ω] :
    Transition.System (FdCountSys n σ ω) (FdCountAct n σ ω) where
  Init := Initial
  step := step

end Steps

/-! ## What is registered -/

/-- The socket is one of stack `i`, and it is registered in the instance. A socket has one `wakeup`,
so that it is registered in one instance at most. -/
def Registered (w : ω) (i : Fin n) (x : σ) : Prop :=
  (s.sock x).stack = some i ∧ (s.sock x).wakeup = some w ∧ (s.sock x).added = true

/-- Whether a socket is registered is decidable. -/
instance (w : ω) (i : Fin n) (x : σ) : Decidable (s.Registered w i x) :=
  inferInstanceAs (Decidable (_ ∧ _))

/-- The number of sockets of stack `i` that are registered in the instance. -/
def registeredNum [Fintype σ] (w : ω) (i : Fin n) : ℕ :=
  (Finset.univ.filter (s.Registered w i)).card

/-- The counters of the instances are the numbers of the registered sockets, hence not negative, and
the stack that `find_max_cnt_stack` finds has most of them. -/
def CountsRegistered [NeZero n] [Fintype σ] (s : FdCountSys n σ ω) : Prop :=
  ∀ w, s.live w = true →
    (∀ i, s.stackFdCnt w i = s.registeredNum w i ∧ 0 ≤ s.stackFdCnt w i) ∧
      ∀ last tick i,
        s.registeredNum w i ≤ s.registeredNum w (findMaxCntStack (s.stackFdCnt w) last tick).1

/-- What the steps have to meet: `EPOLL_CTL_ADD` is for sockets that are registered in no instance,
`EPOLL_CTL_DEL` for sockets registered in this one, a socket that is closed is not registered, and a
new instance is none at which a socket still points. -/
def Condition (s : FdCountSys n σ ω) : FdCountAct n σ ω → Prop
  | .ctl epfd op fd chain =>
    epfd ≠ fd → (s.sock fd).stack ≠ none → ∀ w, (s.sock epfd).wakeup = some w →
      match op with
      | some .add => ∀ x ∈ chain, ∀ i w', s.live w' = true → ¬ s.Registered w' i x
      | some .del => ∀ x ∈ chain, ∃ i, s.Registered w i x
      | _ => True
  | .cleanSock fd => ∀ i w, s.live w = true → ¬ s.Registered w i fd
  | .create w _ => ∀ x i, ¬ s.Registered w i x
  | _ => True

/-- Whether a step meets the condition is found by looking at all sockets and instances. -/
instance [Fintype σ] [Fintype ω] (s : FdCountSys n σ ω) : ∀ a, Decidable (Condition s a)
  | .ctl epfd (some .add) fd chain =>
    inferInstanceAs (Decidable (epfd ≠ fd → (s.sock fd).stack ≠ none → ∀ w,
      (s.sock epfd).wakeup = some w → ∀ x ∈ chain, ∀ i w', s.live w' = true →
        ¬ s.Registered w' i x))
  | .ctl epfd (some .del) fd chain =>
    inferInstanceAs (Decidable (epfd ≠ fd → (s.sock fd).stack ≠ none → ∀ w,
      (s.sock epfd).wakeup = some w → ∀ x ∈ chain, ∃ i, s.Registered w i x))
  | .ctl _ (some .mod) _ _ | .ctl _ none _ _ => isTrue fun _ _ _ _ => trivial
  | .cleanSock fd =>
    inferInstanceAs (Decidable (∀ i w, s.live w = true → ¬ s.Registered w i fd))
  | .create w _ => inferInstanceAs (Decidable (∀ x i, ¬ s.Registered w i x))
  | .epollClose _ | .socket .. | .shadow .. => isTrue trivial

variable {s s' : FdCountSys n σ ω} {w w' : ω} {i : Fin n} {x fd : σ} {chain : List σ}

/-! ### Registered sockets -/

omit [DecidableEq ω] in
/-- The socket that is written. -/
theorem modify_sock_self (x : σ) (f : CountSock n σ ω → CountSock n σ ω) :
    (s.modify x f).sock x = f (s.sock x) :=
  Function.update_self ..

omit [DecidableEq ω] in
/-- The other sockets stay registered where they were. -/
theorem registered_modify {f : CountSock n σ ω → CountSock n σ ω}
    (h : (s.modify x f).Registered w i x ↔ s.Registered w i x) (y : σ) :
    (s.modify x f).Registered w i y ↔ s.Registered w i y := by
  by_cases hy : y = x
  · rw [hy]
    exact h
  · have hsock : (s.modify x f).sock y = s.sock y := Function.update_of_ne hy ..
    unfold Registered
    rw [hsock]

omit [DecidableEq σ] [DecidableEq ω] in
/-- A socket without a stack is not registered. -/
theorem not_registered_of_stack (h : (s.sock x).stack = none) : ¬ s.Registered w i x :=
  fun hreg => Option.some_ne_none i (hreg.1.symm.trans h)

omit [DecidableEq σ] [DecidableEq ω] in
/-- Nor is a socket that is in no instance. -/
theorem not_registered_of_wakeup (h : (s.sock x).wakeup = none) : ¬ s.Registered w i x :=
  fun hreg => Option.some_ne_none w (hreg.2.1.symm.trans h)

/-! ## One call of `lstack_epoll_ctl` -/

/-- Every socket of a chain gets its mark, and the counter of its stack `d`. -/
structure Marked (f : CountSock n σ ω → CountSock n σ ω) (d : ℤ) (w : ω) (chain : List σ)
    (s s' : FdCountSys n σ ω) : Prop where
  /-- The sockets have a stack. -/
  stack : ∀ x ∈ chain, (s.sock x).stack ≠ none
  /-- They are marked. -/
  sock : ∀ x, s'.sock x = if x ∈ chain then f (s.sock x) else s.sock x
  /-- The counters of the instance. -/
  cnt : ∀ i, s'.stackFdCnt w i =
    s.stackFdCnt w i + d * chain.countP fun x => (s.sock x).stack = some i
  /-- The counters of the others. -/
  other : ∀ w' ≠ w, s'.stackFdCnt w' = s.stackFdCnt w'
  /-- The instances. -/
  live : s'.live = s.live
  /-- Their descriptors. -/
  epollfd : s'.epollfd = s.epollfd

/-- Writing to the sockets of a chain and adding to the counter of the stack of each. -/
theorem foldlM_mark {f : CountSock n σ ω → CountSock n σ ω} {d : ℤ}
    (hstack : ∀ y, (f y).stack = y.stack) (hidem : ∀ y, f (f y) = f y)
    (h : chain.foldlM (fun s x => (s.sock x).stack.map fun k => (s.modify x f).count w k d) s =
      some s') : Marked f d w chain s s' := by
  -- along the chain, with the sockets before it already marked
  induction chain generalizing s with
  | nil =>
    obtain rfl : s = s' := Option.some.inj h
    constructor <;> simp
  | cons x chain ih =>
    rw [List.foldlM_cons] at h
    obtain ⟨s₁, hs₁, h⟩ := Option.bind_eq_some_iff.1 h
    obtain ⟨k, hk, rfl⟩ := Option.map_eq_some_iff.1 hs₁
    obtain ⟨hchain, hsock, hcnt, hother, hlive, hepollfd⟩ := ih h
    have hone : ∀ y, ((s.modify x f).count w k d).sock y =
        if y = x then f (s.sock x) else s.sock y := by
      intro y
      show Function.update s.sock x (f (s.sock x)) y = _
      rw [Function.update_apply]
    -- marking writes no stack, so the rest counts as before
    have hsame : ∀ y, (((s.modify x f).count w k d).sock y).stack = (s.sock y).stack := by
      intro y
      rw [hone]
      split
      · next hy => rw [hstack, hy]
      · rfl
    refine ⟨fun y hy => ?_, fun y => ?_, fun i => ?_, fun w' hw' => ?_, hlive, hepollfd⟩
    · rcases List.mem_cons.1 hy with rfl | hy
      · rw [hk]
        exact Option.some_ne_none k
      · rw [← hsame]
        exact hchain y hy
    · rw [hsock, hone]
      -- a socket may occur twice, which marks it once
      by_cases hyx : y = x
      · subst hyx
        simp [hidem]
      · simp [hyx]
    · rw [hcnt, List.countP_cons, List.countP_congr fun y _ => by rw [hsame]]
      have hbefore : (s.modify x f).stackFdCnt = s.stackFdCnt := rfl
      show Function.update (s.modify x f).stackFdCnt w _ w i + _ = _
      rw [Function.update_self, Function.update_apply, hk, hbefore]
      -- it counts for its own stack
      by_cases hik : i = k
      · subst hik
        rw [if_pos rfl, if_pos (decide_eq_true rfl)]
        push_cast
        ring
      · have hki : ¬ k = i := fun h => hik h.symm
        simp [hik, hki]
    · -- the counters of the other instances are not touched
      rw [hother w' hw']
      exact Function.update_of_ne hw' ..

/-- The cases of `lstack_epoll_ctl` that change something. -/
theorem epollCtl_cases [NeZero n] {epfd : σ} {op : Option CtlOp}
    (h : s.epollCtl epfd op fd chain = some s') :
    (s' = s ∧ (epfd = fd ∨ (s.sock epfd).wakeup = none ∨ (s.sock fd).stack = none ∨ op = none)) ∨
      ∃ w op' s₁, (epfd ≠ fd ∧ (s.sock fd).stack ≠ none) ∧ (s.sock epfd).wakeup = some w ∧
        op = some op' ∧ s.live w = true ∧ chain.Nodup ∧
          chain.foldlM (ctlSock op' w) s = some s₁ ∧ s' = s₁.updateEpollMaxStack w := by
  unfold epollCtl at h
  split at h
  · next hfd => exact .inl ⟨(Option.some.inj h).symm, .inl hfd⟩
  · next hfd =>
    split at h
    · next hnone => exact .inl ⟨(Option.some.inj h).symm, .inr (.inl hnone)⟩
    · next w hw =>
      split at h
      · next hstack => exact .inl ⟨(Option.some.inj h).symm, .inr (.inr (.inl hstack))⟩
      · next hstack =>
        split at h
        · exact .inl ⟨(Option.some.inj h).symm, .inr (.inr (.inr rfl))⟩
        · next op' =>
          rw [Option.ite_none_right_eq_some] at h
          obtain ⟨⟨hlive, hchain⟩, h⟩ := h
          obtain ⟨s₁, hs₁, rfl⟩ := Option.map_eq_some_iff.1 h
          exact .inr ⟨w, op', s₁, ⟨hfd, hstack⟩, hw, rfl, hlive, hchain.nodup, hs₁, rfl⟩

/-- `EPOLL_CTL_MOD` touches no counter. -/
theorem foldlM_mod (h : chain.foldlM (ctlSock .mod w) s = some s') : s' = s := by
  induction chain generalizing s with
  | nil => exact (Option.some.inj h).symm
  | cons x chain ih =>
    rw [List.foldlM_cons] at h
    obtain ⟨s₁, hs₁, h⟩ := Option.bind_eq_some_iff.1 h
    obtain ⟨k, -, rfl⟩ := Option.map_eq_some_iff.1 hs₁
    exact ih h

/-- `EPOLL_CTL_ADD` marks the chain. -/
theorem foldlM_add (h : chain.foldlM (ctlSock .add w) s = some s') :
    Marked (fun y => { y with wakeup := some w, added := true }) 1 w chain s s' :=
  foldlM_mark (fun _ => rfl) (fun _ => rfl) h

/-- `EPOLL_CTL_DEL` marks the chain. -/
theorem foldlM_del (h : chain.foldlM (ctlSock .del w) s = some s') :
    Marked (fun y => { y with added := false }) (-1) w chain s s' :=
  foldlM_mark (fun _ => rfl) (fun _ => rfl) h

variable [Fintype σ]

/-- The numbers of the registered sockets before and after a change of some sockets. -/
theorem registeredNum_change (l : Finset σ) (h : ∀ x ∉ l, s'.sock x = s.sock x) (w : ω)
    (i : Fin n) :
    s'.registeredNum w i + (l.filter (s.Registered w i)).card =
      s.registeredNum w i + (l.filter (s'.Registered w i)).card := by
  refine card_filter_change l fun x hx => ?_
  unfold Registered
  rw [h x hx]

omit [DecidableEq σ] in
/-- The numbers are the same when the same sockets are registered. -/
theorem registeredNum_congr (h : ∀ x, s'.Registered w i x ↔ s.Registered w i x) :
    s'.registeredNum w i = s.registeredNum w i :=
  congrArg Finset.card (Finset.filter_congr fun x _ => h x)

/-- The invariant. -/
structure FdCountInv (s : FdCountSys n σ ω) : Prop where
  /-- The counters are the numbers of the registered sockets. -/
  counts : ∀ w, s.live w = true → ∀ i, s.stackFdCnt w i = s.registeredNum w i
  /-- The descriptor of an instance has no socket, and points at the instance. -/
  epollfd : ∀ w, s.live w = true →
    (s.sock (s.epollfd w)).stack = none ∧ (s.sock (s.epollfd w)).wakeup = some w

omit [DecidableEq σ] in
/-- The other fields do not matter. -/
theorem FdCountInv.congr (h : FdCountInv s) (hsock : s'.sock = s.sock) (hlive : s'.live = s.live)
    (hcnt : s'.stackFdCnt = s.stackFdCnt) (hepollfd : s'.epollfd = s.epollfd) : FdCountInv s' where
  counts w hw i := by
    have hreg : ∀ x, s'.Registered w i x ↔ s.Registered w i x := by
      intro x
      unfold Registered
      rw [hsock]
    rw [hcnt, registeredNum_congr hreg]
    exact h.counts w (hlive ▸ hw) i
  epollfd w hw := by
    rw [hsock, hepollfd]
    exact h.epollfd w (hlive ▸ hw)

omit [DecidableEq σ] in
/-- The invariant says what the counters are for. -/
theorem FdCountInv.countsRegistered [NeZero n] (h : FdCountInv s) : s.CountsRegistered := by
  intro w hw
  refine ⟨fun i => ⟨h.counts w hw i, ?_⟩, fun last tick i => ?_⟩
  · rw [h.counts w hw i]
    exact Int.natCast_nonneg _
  · have hmax := findMaxCntStack_spec (s.stackFdCnt w) last tick i
    rw [h.counts w hw, h.counts w hw] at hmax
    exact Int.ofNat_le.1 hmax

/-- Writing to one socket changes the number of registered sockets by this one only. -/
theorem registeredNum_modify (x : σ) (f : CountSock n σ ω → CountSock n σ ω) (w : ω) (i : Fin n) :
    (s.modify x f).registeredNum w i + (if s.Registered w i x then 1 else 0) =
      s.registeredNum w i + if (s.modify x f).Registered w i x then 1 else 0 := by
  have hcard : ∀ (p : σ → Prop) [DecidablePred p],
      (({x} : Finset σ).filter p).card = if p x then 1 else 0 := by
    intro p _
    rw [Finset.filter_singleton]
    split
    · exact Finset.card_singleton x
    · exact Finset.card_empty
  have hothers : ∀ y ∉ ({x} : Finset σ), (s.modify x f).sock y = s.sock y := fun y hy =>
    Function.update_of_ne (by simpa using hy) ..
  have hchange := registeredNum_change {x} hothers w i
  rwa [hcard, hcard] at hchange

/-- A socket is written that stays registered, or not registered, where it was. -/
theorem FdCountInv.modify (h : FdCountInv s) {f : CountSock n σ ω → CountSock n σ ω}
    (hreg : ∀ w i, s.live w = true → ((s.modify x f).Registered w i x ↔ s.Registered w i x))
    (hepollfd : ∀ w, (s.sock x).stack = none → (s.sock x).wakeup = some w →
      (f (s.sock x)).stack = none ∧ (f (s.sock x)).wakeup = some w) :
    FdCountInv (s.modify x f) where
  counts w hw i := by
    rw [registeredNum_congr (registered_modify (hreg w i hw))]
    exact h.counts w hw i
  epollfd w hw := by
    obtain ⟨hstack, hwakeup⟩ := h.epollfd w hw
    show ((s.modify x f).sock (s.epollfd w)).stack = none ∧
      ((s.modify x f).sock (s.epollfd w)).wakeup = some w
    by_cases hx : s.epollfd w = x
    · subst hx
      rw [modify_sock_self]
      exact hepollfd w hstack hwakeup
    · have hother : (s.modify x f).sock (s.epollfd w) = s.sock (s.epollfd w) :=
        Function.update_of_ne hx ..
      rw [hother]
      exact ⟨hstack, hwakeup⟩

/-! ## The steps -/

/-- What the counters and the numbers of registered sockets become when a chain is marked. -/
theorem Marked.change {f : CountSock n σ ω → CountSock n σ ω} {d : ℤ}
    (h : Marked f d w chain s s') (hnodup : chain.Nodup) (w' : ω) (i : Fin n) :
    s'.registeredNum w' i + (chain.toFinset.filter (s.Registered w' i)).card =
        s.registeredNum w' i + (chain.toFinset.filter (s'.Registered w' i)).card ∧
      s'.stackFdCnt w' i = s.stackFdCnt w' i +
        if w' = w then d * (chain.toFinset.filter fun x => (s.sock x).stack = some i).card
        else 0 := by
  refine ⟨registeredNum_change _ (fun x hx => ?_) w' i, ?_⟩
  · rw [h.sock, if_neg (fun hmem => hx (List.mem_toFinset.2 hmem))]
  · split
    · next hw =>
      rw [hw, h.cnt, countP_eq_card hnodup]
    · next hw => rw [h.other w' hw, Int.add_zero]

/-- The sockets of the chain have a stack, so that the descriptor of an instance is not among
them. -/
theorem Marked.epollfd_eq {f : CountSock n σ ω → CountSock n σ ω} {d : ℤ}
    (h : Marked f d w chain s s') (hinv : FdCountInv s) :
    ∀ w, s'.live w = true →
      (s'.sock (s'.epollfd w)).stack = none ∧ (s'.sock (s'.epollfd w)).wakeup = some w := by
  intro w hw
  rw [h.live] at hw
  obtain ⟨hstack, hwakeup⟩ := hinv.epollfd w hw
  rw [h.epollfd, h.sock, if_neg (fun hmem => h.stack _ hmem hstack)]
  exact ⟨hstack, hwakeup⟩

/-- `EPOLL_CTL_ADD` keeps the counters right exactly when the sockets are registered in no
instance. -/
theorem Marked.add_iff
    (h : Marked (fun y => { y with wakeup := some w, added := true }) 1 w chain s s')
    (hinv : FdCountInv s) (hnodup : chain.Nodup) :
    (∀ w', s'.live w' = true → ∀ i, s'.stackFdCnt w' i = s'.registeredNum w' i) ↔
      ∀ x ∈ chain, ∀ i w', s.live w' = true → ¬ s.Registered w' i x := by
  -- how many of the chain are registered afterwards
  have hafter : ∀ w' i, chain.toFinset.filter (s'.Registered w' i) =
      if w' = w then chain.toFinset.filter (fun x => (s.sock x).stack = some i) else ∅ := by
    intro w' i
    ext x
    by_cases hx : x ∈ chain
    · simp only [Finset.mem_filter, List.mem_toFinset, hx, true_and, Registered, h.sock, if_true,
        and_true, Option.some.injEq]
      split
      · next hww => simp [hx, hww]
      · next hww => simp [Ne.symm hww]
    · have hno : ∀ p : σ → Prop, ∀ [DecidablePred p], x ∉ chain.toFinset.filter p := by
        intro p _ hmem
        exact hx (List.mem_toFinset.1 (Finset.mem_filter.1 hmem).1)
      refine iff_of_false (hno _) ?_
      split
      · exact hno _
      · exact Finset.notMem_empty x
  have hcard : ∀ w', s.live w' = true → ∀ i, (s'.stackFdCnt w' i = s'.registeredNum w' i ↔
      (chain.toFinset.filter (s.Registered w' i)).card = 0) := by
    intro w' hw' i
    obtain ⟨hnum, hcnt⟩ := h.change hnodup w' i
    rw [hafter] at hnum
    have hbefore := hinv.counts w' hw' i
    split at hcnt
    · next hww =>
      rw [if_pos hww] at hnum
      constructor <;> intro heq <;> omega
    · next hww =>
      rw [if_neg hww, Finset.card_empty] at hnum
      constructor <;> intro heq <;> omega
  rw [h.live]
  constructor
  · intro hcounts x hx i w' hw' hreg
    have hzero := (hcard w' hw' i).1 (hcounts w' hw' i)
    rw [Finset.card_eq_zero, Finset.filter_eq_empty_iff] at hzero
    exact hzero (List.mem_toFinset.2 hx) hreg
  · intro hno w' hw' i
    refine (hcard w' hw' i).2 ?_
    rw [Finset.card_eq_zero, Finset.filter_eq_empty_iff]
    exact fun x hx => hno x (List.mem_toFinset.1 hx) i w' hw'

/-- `EPOLL_CTL_DEL` keeps the counters right exactly when the sockets are registered in the
instance. -/
theorem Marked.del_iff (h : Marked (fun y => { y with added := false }) (-1) w chain s s')
    (hinv : FdCountInv s) (hw : s.live w = true) (hnodup : chain.Nodup) :
    (∀ w', s'.live w' = true → ∀ i, s'.stackFdCnt w' i = s'.registeredNum w' i) ↔
      ∀ x ∈ chain, ∃ i, s.Registered w i x := by
  -- afterwards none of the chain is registered
  have hafter : ∀ w' i, chain.toFinset.filter (s'.Registered w' i) = ∅ := by
    intro w' i
    refine Finset.filter_eq_empty_iff.2 fun x hx hreg => ?_
    have hadded := hreg.2.2
    rw [h.sock, if_pos (List.mem_toFinset.1 hx)] at hadded
    cases hadded
  -- the counter falls by the length of the chain, the number by those that were registered
  have hcard : ∀ w', s.live w' = true → ∀ i, (s'.stackFdCnt w' i = s'.registeredNum w' i ↔
      (chain.toFinset.filter (s.Registered w' i)).card =
        if w' = w then (chain.toFinset.filter fun x => (s.sock x).stack = some i).card else 0) := by
    intro w' hw' i
    obtain ⟨hnum, hcnt⟩ := h.change hnodup w' i
    rw [hafter, Finset.card_empty] at hnum
    have hbefore := hinv.counts w' hw' i
    split at hcnt
    · next hww =>
      rw [if_pos hww]
      constructor <;> intro heq <;> omega
    · next hww =>
      rw [if_neg hww]
      constructor <;> intro heq <;> omega
  -- registered on a stack means being of this stack
  have hsub : ∀ i, chain.toFinset.filter (s.Registered w i) ⊆
      chain.toFinset.filter fun x => (s.sock x).stack = some i :=
    fun i => Finset.monotone_filter_right _ fun x _ hreg => hreg.1
  rw [h.live]
  constructor
  · -- so both fall by the same only when all were registered
    intro hcounts x hx
    obtain ⟨i, hi⟩ := Option.ne_none_iff_exists'.1 (h.stack x hx)
    have hone := (hcard w hw i).1 (hcounts w hw i)
    rw [if_pos rfl] at hone
    have heq := Finset.eq_of_subset_of_card_le (hsub i) (Nat.le_of_eq hone.symm)
    have hmem : x ∈ chain.toFinset.filter (s.Registered w i) := by
      rw [heq]
      exact Finset.mem_filter.2 ⟨List.mem_toFinset.2 hx, hi⟩
    exact ⟨i, (Finset.mem_filter.1 hmem).2⟩
  · -- and if all were, in this very instance
    intro hall w' hw' i
    refine (hcard w' hw' i).2 ?_
    split
    · next hww =>
      subst hww
      refine congrArg Finset.card (Finset.Subset.antisymm (hsub i) fun x hmem => ?_)
      obtain ⟨hx, hi⟩ := Finset.mem_filter.1 hmem
      obtain ⟨j, hj⟩ := hall x (List.mem_toFinset.1 hx)
      obtain rfl : j = i := Option.some.inj (hj.1.symm.trans hi)
      exact Finset.mem_filter.2 ⟨hx, hj⟩
    · next hww =>
      rw [Finset.card_eq_zero, Finset.filter_eq_empty_iff]
      intro x hx hreg
      obtain ⟨j, hj⟩ := hall x (List.mem_toFinset.1 hx)
      exact hww (Option.some.inj (hreg.2.1.symm.trans hj.2.1))

/-! ### The calls -/

omit [Fintype σ] [DecidableEq ω] in
/-- A new instance changes no registration. -/
theorem registered_create (h : s.Unused fd) (w : ω) (x : σ) :
    (s.modify fd fun y => { y with wakeup := some w }).Registered w' i x ↔ s.Registered w' i x := by
  refine registered_modify (iff_of_false (not_registered_of_stack ?_)
    (not_registered_of_stack h.1)) x
  rw [modify_sock_self]
  exact h.1

/-- A new socket keeps the counters right. -/
theorem FdCountInv.newSock (h : FdCountInv s) (hunused : s.Unused fd) (k : Fin n) :
    FdCountInv (s.modify fd fun _ => ⟨some k, none, false, none⟩) := by
  refine h.modify (fun w i _ => iff_of_false (not_registered_of_wakeup ?_)
    (not_registered_of_stack hunused.1)) (fun w _ hw => ?_)
  · rw [modify_sock_self]
  · exact absurd (hunused.2.symm.trans hw) (Option.some_ne_none w).symm

/-- A new instance, at which no socket points. -/
theorem FdCountInv.create (h : FdCountInv s) (hunused : s.Unused fd)
    (hc : ∀ x i, ¬ s.Registered w i x)
    (hsock : s'.sock = (s.modify fd fun y => { y with wakeup := some w }).sock)
    (hlive : s'.live = Function.update s.live w true)
    (hepollfd : s'.epollfd = Function.update s.epollfd w fd)
    (hcnt : s'.stackFdCnt = Function.update s.stackFdCnt w 0) : FdCountInv s' where
  counts w' hw' i := by
    -- nobody is registered that was not before
    have hreg : ∀ x, s'.Registered w' i x ↔ s.Registered w' i x := by
      intro x
      rw [← registered_create hunused w]
      unfold Registered
      rw [hsock]
    rw [registeredNum_congr hreg, hcnt]
    -- the new instance has count zero, and nobody points at it
    by_cases hww : w' = w
    · subst hww
      have hnone : s.registeredNum w' i = 0 := by
        refine Finset.card_eq_zero.2 (Finset.filter_eq_empty_iff.2 fun x _ => hc x i)
      rw [hnone, Function.update_self]
      rfl
    · rw [Function.update_of_ne hww]
      rw [hlive, Function.update_of_ne hww] at hw'
      exact h.counts w' hw' i
  epollfd w' hw' := by
    rw [hepollfd, hsock]
    by_cases hww : w' = w
    · rw [hww, Function.update_self, modify_sock_self]
      exact ⟨hunused.1, rfl⟩
    · rw [hlive, Function.update_of_ne hww] at hw'
      obtain ⟨hstack, hwakeup⟩ := h.epollfd w' hw'
      -- the descriptor of an older instance was in use
      have hne : s.epollfd w' ≠ fd := by
        intro heq
        rw [heq, hunused.2] at hwakeup
        cases hwakeup
      have hother : (s.modify fd fun y => { y with wakeup := some w }).sock (s.epollfd w') =
          s.sock (s.epollfd w') := Function.update_of_ne hne ..
      rw [Function.update_of_ne hww, hother]
      exact ⟨hstack, hwakeup⟩

/-- An instance that is closed. -/
theorem FdCountInv.epollClose (h : FdCountInv s) (hw : s.live w = true)
    (hsock : s'.sock = (s.modify (s.epollfd w) fun y => { y with wakeup := none }).sock)
    (hlive : s'.live = Function.update s.live w false) (hepollfd : s'.epollfd = s.epollfd)
    (hcnt : s'.stackFdCnt = s.stackFdCnt) : FdCountInv s' := by
  -- the other instances are alive still
  have hrest : ∀ w', s'.live w' = true → w' ≠ w ∧ s.live w' = true := by
    intro w' hw'
    rw [hlive] at hw'
    by_cases hww : w' = w
    · rw [hww, Function.update_self] at hw'
      cases hw'
    · rw [Function.update_of_ne hww] at hw'
      exact ⟨hww, hw'⟩
  have hstack : (s.sock (s.epollfd w)).stack = none := (h.epollfd w hw).1
  refine ⟨fun w' hw' i => ?_, fun w' hw' => ?_⟩
  · -- the descriptor of the instance is no socket of a stack, so nobody is registered less
    have hreg : ∀ x, s'.Registered w' i x ↔ s.Registered w' i x := by
      intro x
      have hmodify := registered_modify (s := s) (w := w') (i := i) (x := s.epollfd w)
        (f := fun y => { y with wakeup := none })
        (iff_of_false (not_registered_of_wakeup (by rw [modify_sock_self]))
          (not_registered_of_stack hstack)) x
      rw [← hmodify]
      unfold Registered
      rw [hsock]
    rw [hcnt, registeredNum_congr hreg]
    exact h.counts w' (hrest w' hw').2 i
  · obtain ⟨hne, hw'⟩ := hrest w' hw'
    obtain ⟨hstack', hwakeup⟩ := h.epollfd w' hw'
    -- two instances have different descriptors
    have hfd : s.epollfd w' ≠ s.epollfd w := by
      intro heq
      rw [heq, (h.epollfd w hw).2] at hwakeup
      exact hne (Option.some.inj hwakeup).symm
    have hother : (s.modify (s.epollfd w) fun y => { y with wakeup := none }).sock (s.epollfd w') =
        s.sock (s.epollfd w') := Function.update_of_ne hfd ..
    rw [hepollfd, hsock, hother]
    exact ⟨hstack', hwakeup⟩

section Steps

variable [NeZero n] {a : FdCountAct n σ ω}

omit [DecidableEq σ] in
/-- What the counters of a state say, without the stack that is found. -/
theorem CountsRegistered.counts (h : s.CountsRegistered) :
    ∀ w, s.live w = true → ∀ i, s.stackFdCnt w i = s.registeredNum w i :=
  fun w hw i => ((h w hw).1 i).1

omit [DecidableEq σ] in
/-- `update_epoll_max_stack` writes no counter. -/
theorem FdCountInv.updateEpollMaxStack (h : FdCountInv s) (w : ω) :
    FdCountInv (s.updateEpollMaxStack w) :=
  h.congr rfl rfl rfl rfl

/-- `lstack_epoll_ctl` keeps the counters right exactly when it meets the condition. -/
theorem epollCtl_iff {epfd : σ} {op : Option CtlOp} (hinv : FdCountInv s)
    (h : s.epollCtl epfd op fd chain = some s') :
    (Condition s (.ctl epfd op fd chain) → FdCountInv s') ∧
      (s'.CountsRegistered → Condition s (.ctl epfd op fd chain)) := by
  rcases epollCtl_cases h with
    ⟨rfl, hcase⟩ | ⟨w, op', s₁, ⟨hne, hstack⟩, hw, rfl, hlive, hnodup, hfold, rfl⟩
  · -- the call is refused before it changes anything
    refine ⟨fun _ => hinv, fun _ hne hstack w hw => ?_⟩
    rcases hcase with hfd | hnone | hnone | rfl
    · exact absurd hfd hne
    · exact absurd (hnone.symm.trans hw) (Option.some_ne_none w).symm
    · exact absurd hnone hstack
    · trivial
  · have hupdate : (s₁.updateEpollMaxStack w).CountsRegistered →
        ∀ w', s₁.live w' = true → ∀ i, s₁.stackFdCnt w' i = s₁.registeredNum w' i :=
      fun hcounts => CountsRegistered.counts hcounts
    have hwakeup : ∀ w', (s.sock epfd).wakeup = some w' → w' = w :=
      fun w' hw' => Option.some.inj (hw'.symm.trans hw)
    -- the chain goes through the loop, where each socket adds to a count or takes from it
    cases op' with
    | add =>
      have hmark := foldlM_add hfold
      refine ⟨fun hc => ?_, fun hcounts _ _ w' hw' => ?_⟩
      · have hcounts := (hmark.add_iff hinv hnodup).2 (hc hne hstack w hw)
        exact FdCountInv.updateEpollMaxStack ⟨hcounts, hmark.epollfd_eq hinv⟩ w
      · exact (hmark.add_iff hinv hnodup).1 (hupdate hcounts)
    | mod =>
      -- a change of the events counts nothing
      obtain rfl := foldlM_mod hfold
      exact ⟨fun _ => hinv.updateEpollMaxStack w, fun _ _ _ _ _ => trivial⟩
    | del =>
      have hmark := foldlM_del hfold
      refine ⟨fun hc => ?_, fun hcounts _ _ w' hw' => ?_⟩
      · have hcounts := (hmark.del_iff hinv hlive hnodup).2 (hc hne hstack w hw)
        exact FdCountInv.updateEpollMaxStack ⟨hcounts, hmark.epollfd_eq hinv⟩ w
      · obtain rfl := hwakeup w' hw'
        exact (hmark.del_iff hinv hlive hnodup).1 (hupdate hcounts)

/-- A step that meets the condition keeps the invariant. -/
theorem FdCountInv.step (h : FdCountInv s) (hc : Condition s a)
    (hs : FdCountSys.step s a = some s') : FdCountInv s' := by
  cases a with
  | create w fd =>
    simp only [FdCountSys.step, Option.ite_none_right_eq_some, Option.some.injEq] at hs
    obtain ⟨⟨hdead, hunused⟩, rfl⟩ := hs
    -- the counts of a new instance start at zero
    apply FdCountInv.updateEpollMaxStack
    exact h.create hunused (hc : ∀ x i, ¬ s.Registered w i x) rfl rfl rfl rfl
  | epollClose w =>
    simp only [FdCountSys.step, Option.ite_none_right_eq_some, Option.some.injEq] at hs
    obtain ⟨hlive, rfl⟩ := hs
    exact h.epollClose hlive rfl rfl rfl rfl
  | ctl epfd op fd chain => exact (epollCtl_iff h hs).1 hc
  | socket fd k =>
    simp only [FdCountSys.step, Option.ite_none_right_eq_some, Option.some.injEq] at hs
    obtain ⟨hunused, rfl⟩ := hs
    exact h.newSock hunused k
  | shadow fd chain x k =>
    simp only [FdCountSys.step, Option.ite_none_right_eq_some] at hs
    obtain ⟨⟨hunused, -⟩, hs⟩ := hs
    obtain ⟨z, -, rfl⟩ := Option.map_eq_some_iff.1 hs
    -- the shadow is a new socket; of the end of the chain only `listenNext` is written
    refine (h.newSock hunused k).modify (fun w i _ => ?_) (fun w hstack hw => ⟨hstack, hw⟩)
    unfold Registered
    rw [modify_sock_self]
  | cleanSock fd =>
    simp only [FdCountSys.step] at hs
    split at hs
    · obtain rfl := Option.some.inj hs
      -- the socket has gone before
      exact h
    · next hstack =>
      obtain rfl := Option.some.inj hs
      -- what was registered would stay counted, which the condition excludes
      refine h.modify (fun w i hw => iff_of_false (not_registered_of_stack ?_) (hc i w hw))
        (fun w hnone => absurd hnone hstack)
      rw [modify_sock_self]

/-- A step from the invariant to a state with right counters meets the condition. -/
theorem FdCountInv.condition (h : FdCountInv s) (hcounts : s'.CountsRegistered)
    (hs : FdCountSys.step s a = some s') : Condition s a := by
  cases a with
  | create w fd =>
    simp only [FdCountSys.step, Option.ite_none_right_eq_some, Option.some.injEq] at hs
    obtain ⟨⟨-, hunused⟩, rfl⟩ := hs
    intro x i hreg
    have hlive : Function.update s.live w true w = true := Function.update_self ..
    -- the counters of the new instance are 0
    have hzero := hcounts.counts w hlive i
    have hcnt : Function.update s.stackFdCnt w 0 w i = 0 := by
      rw [Function.update_self]
      rfl
    have hnum := Int.natCast_eq_zero.1 (hzero.symm.trans hcnt)
    have hnone := Finset.filter_eq_empty_iff.1 (Finset.card_eq_zero.1 hnum)
    exact hnone (Finset.mem_univ x) ((registered_create hunused w x).2 hreg)
  | ctl epfd op fd chain => exact (epollCtl_iff h hs).2 hcounts
  | cleanSock fd =>
    simp only [FdCountSys.step] at hs
    split at hs
    · next hstack =>
      intro i w _
      exact not_registered_of_stack hstack
    · next hstack =>
      obtain rfl := Option.some.inj hs
      intro i w hw hreg
      have hchange := registeredNum_modify (s := s) fd (fun _ => ⟨none, none, false, none⟩) w i
      have hnot : ¬ (s.modify fd fun _ => ⟨none, none, false, none⟩).Registered w i fd :=
        not_registered_of_stack (by rw [modify_sock_self])
      have hbefore := h.counts w hw i
      have hafter : s.stackFdCnt w i =
          (s.modify fd fun _ => ⟨none, none, false, none⟩).registeredNum w i :=
        hcounts.counts w hw i
      rw [if_pos hreg, if_neg hnot] at hchange
      omega
  | _ => trivial

omit [DecidableEq σ] [NeZero n] in
/-- There is nothing to count at first. -/
theorem Initial.fdCountInv (h : s.Initial) : FdCountInv s where
  counts w hw := absurd ((h.2 w).symm.trans hw) Bool.false_ne_true
  epollfd w hw := absurd ((h.2 w).symm.trans hw) Bool.false_ne_true

/-- Along a run, the counters of all instances are always the numbers of the registered sockets,
and the stack that is bound has most of them, exactly when every step meets the condition. -/
theorem stack_fd_cnt_registered_iff {acts : List (FdCountAct n σ ω)} (hs : (system n σ ω).Init s) :
    (system n σ ω).statesHold CountsRegistered s acts ↔
      (system n σ ω).stepsMeet Condition s acts :=
  Transition.System.statesHold_iff_stepsMeet (fun _ h => FdCountInv.countsRegistered h)
    (fun _ _ _ h hc hstep => FdCountInv.step h hc hstep)
    (fun _ _ _ h hcounts hstep => FdCountInv.condition h hcounts hstep)
    (Initial.fdCountInv hs)

end Steps

/-! ### Runs -/

/-- Four descriptors and one instance. -/
def noSockets : FdCountSys 2 (Fin 4) (Fin 1) :=
  ⟨fun _ => ⟨none, none, false, none⟩, fun _ => false, fun _ => 0, fun _ _ => 0, fun _ => none, 0⟩

/-- An instance, and a socket of the second stack that is registered in it. -/
def addOne : List (FdCountAct 2 (Fin 4) (Fin 1)) :=
  [.create ⟨0, Nat.zero_lt_one⟩ 0, .socket 1 ⟨1, Nat.one_lt_two⟩, .ctl 0 (some .add) 1 [1]]

/-- A listening socket is registered with its shadow and deleted before it is closed. -/
theorem stack_fd_cnt_registered_shadow :
    (system 2 (Fin 4) (Fin 1)).statesHold CountsRegistered noSockets
      [.create 0 0, .socket 1 1, .shadow 1 [1] 2 0, .ctl 0 (some .add) 1 [1, 2],
        .ctl 0 (some .mod) 1 [1, 2], .ctl 0 (some .del) 1 [1, 2], .cleanSock 1] :=
  (stack_fd_cnt_registered_iff ⟨fun _ => rfl, fun _ => rfl⟩).2 (by decide +kernel)

/-- A registered socket is closed, and the instance still counts it. -/
theorem stack_fd_cnt_counts_closed :
    ¬ ∀ (s s' : FdCountSys 2 (Fin 4) (Fin 1)) (acts : List (FdCountAct 2 (Fin 4) (Fin 1))),
      (system 2 (Fin 4) (Fin 1)).Init s → (system 2 (Fin 4) (Fin 1)).run s acts = some s' →
        s'.CountsRegistered := by
  intro h
  have hrun : ((system 2 (Fin 4) (Fin 1)).run noSockets (addOne ++ [.cleanSock 1])).any (fun s =>
      decide (s.live 0 = true ∧ s.stackFdCnt 0 1 = 1 ∧ s.registeredNum 0 1 = 0)) = true := by
    decide +kernel
  obtain ⟨s, hs, hnum⟩ := (Option.any_eq_true _ _).1 hrun
  obtain ⟨hlive, hcnt, hreg⟩ := of_decide_eq_true hnum
  have hcounts := (h noSockets s _ ⟨fun _ => rfl, fun _ => rfl⟩ hs).counts 0 hlive 1
  rw [hcnt, hreg] at hcounts
  cases hcounts

end FdCountSys

end Gazelle
