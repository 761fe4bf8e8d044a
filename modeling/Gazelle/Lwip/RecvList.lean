import Gazelle.Lists.DoublyLinked
import Gazelle.Lists.RoundRobin
import Gazelle.Ring.Basic
import Mathlib.Data.Fintype.Card

/-!
# The sockets that have received something

A stack has a circular list of the sockets whose mailboxes may hold something. `add_recv_list` puts
a socket at its end, and `read_recv_list` visits a number of them from the beginning on. When there
are more, it moves the head of the list in front of the next socket, so that the next call begins
there.

* `RecvList.readRecvList`: the function, on the links in memory;
* `readLoop_serves`: what the iteration does;
* `read_recv_list_round_robin`: what a call does, and that the sockets take turns.
-/

namespace Gazelle

open DoublyLinked List

/-- A file descriptor: an `int32_t` that is not negative. -/
abbrev SockFd := Fin (2 ^ 31)

/-- The nodes that may be in the list. -/
inductive RecvNode
  /-- `stack->recv_list`, the head of the list. -/
  | list
  /-- `sock->recv_list`. -/
  | sock (fd : SockFd)
  deriving DecidableEq

/-- What `read_recv_list` finds when it visits a socket. -/
structure SockVisit where
  /-- The number of entries of the mailbox, if `conn` and `recvmbox` are not `NULL`. -/
  recvmbox : Option U32
  /-- The result of `lwip_recv`. -/
  len : ℤ

/-- The mailbox is there and not empty. -/
def SockVisit.hasMail (v : SockVisit) : Bool := v.recvmbox.isSome && v.recvmbox != some 0

/-- The events that a visit adds. -/
inductive RecvEvent
  /-- `EPOLLIN`. -/
  | epollin
  /-- `EPOLLERR`, when `errevent` is set. -/
  | epollerr
  deriving DecidableEq

/-- The list and what happened to it. -/
structure RecvList where
  /-- The links in memory. -/
  links : Links RecvNode
  /-- The events added to sockets. -/
  sockEvents : List (SockFd × RecvEvent)
  /-- The sockets added and visited; nothing reads this. -/
  history : List (RoundRobin.Event SockFd)

namespace RecvList

variable (s : RecvList)

/-- `list_is_null`. -/
def listIsNull (n : RecvNode) : Bool := s.links.next n = none ∧ s.links.prev n = none

/-- `list_add_node(h, n)`. -/
def listAddNode (h n : RecvNode) : RecvList := { s with links := s.links.insertBefore h n }

/-- `list_del_node`. -/
def listDelNode (n : RecvNode) : RecvList := { s with links := s.links.remove n }

/-- `list_del_node_null`. -/
def listDelNodeNull (n : RecvNode) : RecvList := { s with links := (s.links.remove n).clear n }

/-- `add_recv_list`, for a socket of the stack. -/
def addRecvList (fd : SockFd) : RecvList :=
  if s.listIsNull (.sock fd) then
    { s.listAddNode .list (.sock fd) with history := s.history ++ [.add fd] }
  else s

/-- The body of the loop for a socket that is visited. -/
def visit (fd : SockFd) (v : SockVisit) : RecvList :=
  let s := { s with history := s.history ++ [.serve fd v.hasMail] }
  if !v.hasMail then s.listDelNodeNull (.sock fd)
  else if v.len = 0 then { s with sockEvents := s.sockEvents ++ [(fd, .epollerr)] }
  else if v.len > 0 then { s with sockEvents := s.sockEvents ++ [(fd, .epollin)] }
  else s

/-- The loop `list_for_each_safe(node, temp, list)`. Nothing is returned when it takes more rounds
or comes to `NULL`. -/
def readLoop (maxNum : U32) (found : SockFd → SockVisit) :
    ℕ → RecvNode → U32 → RecvList → Option RecvList
  | 0, _, _, _ => none
  | _ + 1, .list, _, s => some s
  | rounds + 1, .sock fd, readNum, s =>
    let temp := s.links.next (.sock fd)
    let readNum := readNum + 1
    if readNum > maxNum then
      -- the head of the list is moved
      some ((s.listDelNode .list).listAddNode (.sock fd) .list)
    else
      let s := s.visit fd (found fd)
      match temp with
      | none => none
      | some node => readLoop maxNum found rounds node readNum s

/-- `read_recv_list`: there are no more rounds than file descriptors and the end of the list. -/
def readRecvList (maxNum : U32) (found : SockFd → SockVisit) : Option RecvList :=
  match s.links.next .list with
  | none => none
  | some node => readLoop maxNum found (2 ^ 31 + 1) node 0 s

/-- The sockets of the list are these, in this order. -/
def Has (l : List SockFd) : Prop := Ring s.links (.list :: l.map .sock)

/-- The calls made on the list. -/
inductive Act
  /-- `add_recv_list`. -/
  | add (fd : SockFd)
  /-- `read_recv_list`, with what it finds. -/
  | read (maxNum : U32) (found : SockFd → SockVisit)

/-- A call. -/
def step : Act → Option RecvList
  | .add fd => some (s.addRecvList fd)
  | .read maxNum found => s.readRecvList maxNum found

/-- The calls made one after the other, when the list has these sockets at first. -/
def system (l₀ : List SockFd) : Transition.System RecvList Act where
  Init s := s.Has l₀ ∧ s.history = []
  step := step

/-- What a call of `read_recv_list` does. -/
structure Serves (s : RecvList) (l : List SockFd) (num : ℕ) (found : SockFd → SockVisit)
    (s' : RecvList) : Prop where
  /-- The sockets not visited come first, then those that were visited and have mail. -/
  has : s'.Has (l.drop num ++ (l.take num).filter fun fd => (found fd).hasMail)
  /-- The sockets visited are the first ones. -/
  history : s'.history = s.history ++
    (l.take num).map fun fd => .serve fd (found fd).hasMail
  /-- The sockets visited without mail are linked to nothing. -/
  unlinked : ∀ fd ∈ l.take num, (found fd).hasMail = false → s'.listIsNull (.sock fd)
  /-- The sockets that were not in the list are as they were. -/
  others : ∀ fd ∉ l, s'.links.next (.sock fd) = s.links.next (.sock fd) ∧
    s'.links.prev (.sock fd) = s.links.prev (.sock fd)

end RecvList

/-! ## The iteration -/

section Iteration

variable {s : RecvList} {l done rest : List SockFd} {fd : SockFd}

/-- The sockets of a list are different. -/
theorem RecvList.Has.nodup (h : s.Has l) : l.Nodup :=
  Nodup.of_map _ (nodup_cons.1 (Ring.nodup h)).2

/-- There are at most as many sockets as file descriptors. -/
theorem RecvList.Has.length_le (h : s.Has l) : l.length ≤ 2 ^ 31 := by
  have hcard := h.nodup.length_le_card
  rwa [Fintype.card_fin] at hcard

/-- A socket that is not in the list is none of the nodes. -/
theorem sock_notMem (hfd : fd ∉ l) : RecvNode.sock fd ∉ RecvNode.list :: l.map .sock := by
  rintro (_ | ⟨_, hmem⟩)
  obtain ⟨fd', hfd', heq⟩ := List.mem_map.1 hmem
  exact hfd (RecvNode.sock.inj heq ▸ hfd')

/-- The circle from a socket on. -/
theorem RecvList.Has.from_sock (h : s.Has (done ++ fd :: rest)) :
    Ring s.links (.sock fd :: (rest.map .sock ++ .list :: done.map .sock)) := by
  rw [RecvList.Has, map_append, map_cons] at h
  have hring : Ring s.links ((.list :: done.map .sock) ++ (.sock fd :: rest.map .sock)) := h
  exact hring.rotate

/-- The node after a socket is the next socket, or the head of the list. -/
theorem RecvList.Has.next_sock (h : s.Has (done ++ fd :: rest)) :
    s.links.next (.sock fd) = some ((rest.map RecvNode.sock).head?.getD .list) := by
  refine h.from_sock.next _ _ (.inl (adjacent_cons.2 (.inl ⟨rfl, ?_⟩)))
  cases rest <;> rfl

/-- The first node is the first socket, or the head of the list. -/
theorem RecvList.Has.next_list (h : s.Has l) :
    s.links.next .list = some ((l.map RecvNode.sock).head?.getD .list) := by
  cases l with
  | nil => exact Ring.next h _ _ (.inr ⟨rfl, rfl⟩)
  | cons fd l => exact Ring.next h _ _ (.inl (adjacent_cons.2 (.inl ⟨rfl, rfl⟩)))

/-- The head of the list is moved in front of a socket. -/
theorem RecvList.Has.move (h : s.Has (done ++ fd :: rest)) :
    ((s.listDelNode .list).listAddNode (.sock fd) .list).Has (fd :: rest ++ done) := by
  rw [RecvList.Has, map_append, map_cons] at h
  have hdel := (Ring.remove h (by simp)).rotate
  have hout : RecvNode.list ∉ RecvNode.sock fd :: (rest.map .sock ++ done.map .sock) := by
    intro hmem
    rcases List.mem_cons.1 hmem with heq | hmem
    · cases heq
    · rw [← map_append] at hmem
      obtain ⟨_, -, heq⟩ := List.mem_map.1 hmem
      cases heq
  rw [RecvList.Has, cons_append, map_cons, map_append]
  exact Ring.insertBefore hdel hout

/-- A socket is unlinked. -/
theorem RecvList.Has.unlink (h : s.Has (done ++ fd :: rest)) :
    (s.listDelNodeNull (.sock fd)).Has (done ++ rest) := by
  have hfrom := h.from_sock
  have hdel := hfrom.remove (by simp)
  have hclear := (hdel.clear (nodup_cons.1 hfrom.nodup).1).rotate
  rw [RecvList.Has, map_append]
  exact hclear

/-- Unlinking a socket leaves the sockets outside of the list alone. -/
theorem RecvList.Has.unlink_others (h : s.Has (done ++ fd :: rest)) {fd' : SockFd}
    (hfd' : fd' ∉ done ++ fd :: rest) :
    (s.listDelNodeNull (.sock fd)).links.next (.sock fd') = s.links.next (.sock fd') ∧
      (s.listDelNodeNull (.sock fd)).links.prev (.sock fd') = s.links.prev (.sock fd') := by
  have hout : RecvNode.sock fd' ∉ rest.map RecvNode.sock ++ .list :: done.map .sock := by
    have hmem := sock_notMem hfd'
    rw [map_append, map_cons] at hmem
    simp only [mem_cons, mem_append, not_or] at hmem ⊢
    tauto
  have hne : RecvNode.sock fd' ≠ .sock fd := by
    intro heq
    rw [RecvNode.sock.inj heq] at hfd'
    exact hfd' (mem_append_right done mem_cons_self)
  obtain ⟨hnext, hprev⟩ := h.from_sock.remove_of_notMem (by simp) hout
  exact ⟨(Function.update_of_ne hne _ _).trans hnext, (Function.update_of_ne hne _ _).trans hprev⟩

/-- Moving the head of the list leaves the sockets outside of the list alone. -/
theorem RecvList.Has.move_others (h : s.Has (done ++ fd :: rest)) {fd' : SockFd}
    (hfd' : fd' ∉ done ++ fd :: rest) :
    ((s.listDelNode .list).listAddNode (.sock fd) .list).links.next (.sock fd') =
        s.links.next (.sock fd') ∧
      ((s.listDelNode .list).listAddNode (.sock fd) .list).links.prev (.sock fd') =
        s.links.prev (.sock fd') := by
  have hmem := sock_notMem hfd'
  rw [RecvList.Has, map_append, map_cons] at h
  rw [map_append, map_cons] at hmem
  have hout := (not_or.1 (mt mem_cons.2 hmem)).2
  obtain ⟨hnext, hprev⟩ := Ring.remove_of_notMem h (by simp) hout
  have hdel := (Ring.remove h (by simp)).rotate
  have hout' : RecvNode.sock fd' ∉
      RecvNode.list :: .sock fd :: (rest.map RecvNode.sock ++ done.map .sock) := by
    simp only [mem_cons, mem_append, not_or] at hmem ⊢
    tauto
  obtain ⟨hnext', hprev'⟩ := hdel.insertBefore_of_notMem hout'
  exact ⟨hnext'.trans hnext, hprev'.trans hprev⟩

/-- What a visit does to the links. -/
theorem RecvList.visit_links (fd : SockFd) (v : SockVisit) :
    (s.visit fd v).links = if v.hasMail then s.links else (s.listDelNodeNull (.sock fd)).links := by
  unfold RecvList.visit
  cases v.hasMail with
  | false => rfl
  | true =>
    simp only [Bool.not_true, Bool.false_eq_true, if_false, if_true]
    split
    · rfl
    · split <;> rfl

/-- A visit is written down. -/
theorem RecvList.visit_history (fd : SockFd) (v : SockVisit) :
    (s.visit fd v).history = s.history ++ [.serve fd v.hasMail] := by
  unfold RecvList.visit
  cases v.hasMail with
  | false => rfl
  | true =>
    simp only [Bool.not_true, Bool.false_eq_true, if_false]
    split
    · rfl
    · split <;> rfl

/-- What the rest of the iteration does when the sockets `done` have been visited and kept. -/
structure ServesRest (s : RecvList) (done rest : List SockFd) (num : ℕ)
    (found : SockFd → SockVisit) (s' : RecvList) : Prop where
  /-- The sockets not visited come first, then those that were visited and have mail. -/
  has : s'.Has (rest.drop num ++ (done ++ (rest.take num).filter fun fd => (found fd).hasMail))
  /-- The sockets visited are the next ones. -/
  history : s'.history = s.history ++
    (rest.take num).map fun fd => .serve fd (found fd).hasMail
  /-- The sockets visited without mail are linked to nothing. -/
  unlinked : ∀ fd ∈ rest.take num, (found fd).hasMail = false → s'.listIsNull (.sock fd)
  /-- The sockets that are not in the list are as they were. -/
  others : ∀ fd ∉ done ++ rest, s'.links.next (.sock fd) = s.links.next (.sock fd) ∧
    s'.links.prev (.sock fd) = s.links.prev (.sock fd)

/-- The iteration from a socket on, or from the end of the list on. -/
theorem readLoop_serves {maxNum : U32} {found : SockFd → SockVisit} {rounds : ℕ} {readNum : U32}
    (h : s.Has (done ++ rest)) (hrounds : rest.length < rounds)
    (hnum : readNum.toNat + rest.length < 2 ^ 32) (hle : readNum.toNat ≤ maxNum.toNat) :
    ∃ s',
      RecvList.readLoop maxNum found rounds ((rest.map RecvNode.sock).head?.getD .list) readNum s =
        some s' ∧ ServesRest s done rest (maxNum.toNat - readNum.toNat) found s' := by
  induction rest generalizing s done rounds readNum with
  | nil =>
    obtain ⟨rounds, rfl⟩ : ∃ r, rounds = r + 1 := ⟨rounds - 1, by omega⟩
    refine ⟨s, rfl, ?_, ?_, fun fd hfd => absurd hfd (by simp), fun _ _ => ⟨rfl, rfl⟩⟩
    · simpa using h
    · simp
  | cons fd rest ih =>
    obtain ⟨rounds, rfl⟩ : ∃ r, rounds = r + 1 := ⟨rounds - 1, by omega⟩
    rw [length_cons] at hrounds hnum
    have hone : (1 : U32).toNat = 1 := rfl
    have hnext : (readNum + 1).toNat = readNum.toNat + 1 := by
      rw [BitVec.toNat_add, hone, Nat.mod_eq_of_lt (by omega)]
    show ∃ s', RecvList.readLoop maxNum found (rounds + 1) (.sock fd) readNum s = some s' ∧ _
    rw [RecvList.readLoop]
    by_cases hmax : readNum + 1 > maxNum
    · -- enough sockets are visited
      rw [if_pos hmax]
      rw [gt_iff_lt, BitVec.lt_def, hnext] at hmax
      have hzero : maxNum.toNat - readNum.toNat = 0 := by omega
      rw [hzero]
      refine ⟨_, rfl, ?_, ?_, fun fd' hfd' => absurd hfd' not_mem_nil, fun _ => h.move_others⟩
      · rw [drop_zero, take_zero, filter_nil, append_nil]
        exact h.move
      · exact (append_nil _).symm
    · rw [if_neg hmax, h.next_sock]
      rw [gt_iff_lt, BitVec.not_lt, BitVec.le_def, hnext] at hmax
      obtain ⟨num, hnum'⟩ : ∃ num, maxNum.toNat - readNum.toNat = num + 1 :=
        ⟨maxNum.toNat - readNum.toNat - 1, by omega⟩
      have hleft : maxNum.toNat - (readNum + 1).toNat = num := by omega
      have hrounds' : rest.length < rounds := by omega
      have hnum₁ : (readNum + 1).toNat + rest.length < 2 ^ 32 := by omega
      rw [hnum']
      cases hmail : (found fd).hasMail with
      | true =>
        -- the socket stays, behind those that were visited before it
        have hlinks : (s.visit fd (found fd)).links = s.links := by
          rw [RecvList.visit_links, hmail]
          rfl
        have hhas : (s.visit fd (found fd)).Has ((done ++ [fd]) ++ rest) := by
          rw [RecvList.Has, hlinks, append_assoc]
          exact h
        obtain ⟨s', hrun, hserves⟩ := ih hhas hrounds' hnum₁ (hnext ▸ hmax)
        rw [hleft] at hserves
        refine ⟨s', hrun, ?_, ?_, fun fd' hfd' hnone => ?_, fun fd' hfd' => ?_⟩
        · have hkeep : ((fd :: rest.take num).filter fun fd => (found fd).hasMail) =
              fd :: (rest.take num).filter fun fd => (found fd).hasMail := filter_cons_of_pos hmail
          have hall := hserves.has
          rw [drop_succ_cons, take_succ_cons, hkeep]
          rwa [append_assoc done] at hall
        · rw [hserves.history, RecvList.visit_history, append_assoc]
          rfl
        · rcases mem_cons.1 hfd' with rfl | hfd'
          · rw [hmail] at hnone
            cases hnone
          · exact hserves.unlinked fd' hfd' hnone
        · rw [← hlinks]
          exact hserves.others fd' (by rwa [append_assoc])
      | false =>
        have hlinks : (s.visit fd (found fd)).links = (s.listDelNodeNull (.sock fd)).links := by
          rw [RecvList.visit_links, hmail]
          rfl
        have hhas : (s.visit fd (found fd)).Has (done ++ rest) := by
          rw [RecvList.Has, hlinks]
          exact h.unlink
        obtain ⟨s', hrun, hserves⟩ := ih hhas hrounds' hnum₁ (hnext ▸ hmax)
        rw [hleft] at hserves
        have hnot : fd ∉ done ++ rest := (nodup_middle.1 h.nodup |> nodup_cons.1).1
        refine ⟨s', hrun, ?_, ?_, fun fd' hfd' hnone => ?_, fun fd' hfd' => ?_⟩
        · have hdrop : ((fd :: rest.take num).filter fun fd => (found fd).hasMail) =
              (rest.take num).filter fun fd => (found fd).hasMail :=
            filter_cons_of_neg (by rw [hmail]; decide)
          rw [drop_succ_cons, take_succ_cons, hdrop]
          exact hserves.has
        · rw [hserves.history, RecvList.visit_history, append_assoc]
          rfl
        · rcases mem_cons.1 hfd' with rfl | hfd'
          · -- its links were cleared, and nothing was written there since
            obtain ⟨hn, hp⟩ := hserves.others fd' hnot
            rw [hlinks] at hn hp
            refine decide_eq_true ⟨hn.trans ?_, hp.trans ?_⟩
            · exact Function.update_self _ _ _
            · exact Function.update_self _ _ _
          · exact hserves.unlinked fd' hfd' hnone
        · obtain ⟨hn, hp⟩ := hserves.others fd'
            (by simp only [mem_append, mem_cons] at hfd' ⊢; tauto)
          obtain ⟨hn', hp'⟩ := h.unlink_others hfd'
          rw [hlinks] at hn hp
          exact ⟨hn.trans hn', hp.trans hp'⟩

/-- A call of `read_recv_list`. -/
theorem RecvList.Has.readRecvList (h : s.Has l) (maxNum : U32) (found : SockFd → SockVisit) :
    ∃ s', s.readRecvList maxNum found = some s' ∧ s.Serves l maxNum.toNat found s' := by
  have hlen := h.length_le
  have hzero : (0 : U32).toNat = 0 := rfl
  obtain ⟨s', hrun, hserves⟩ : ∃ s', RecvList.readLoop maxNum found (2 ^ 31 + 1)
      ((l.map RecvNode.sock).head?.getD .list) 0 s = some s' ∧
        ServesRest s [] l maxNum.toNat found s' :=
    readLoop_serves h (by omega) (by rw [hzero]; omega) (Nat.zero_le _)
  refine ⟨s', ?_, hserves.has, hserves.history, hserves.unlinked, hserves.others⟩
  rw [RecvList.readRecvList, h.next_list]
  exact hrun

/-- A call of `add_recv_list`. -/
theorem RecvList.Has.addRecvList (h : s.Has l) (fd : SockFd) :
    s.addRecvList fd = s ∨
      fd ∉ l ∧ (s.addRecvList fd).Has (l ++ [fd]) ∧
        (s.addRecvList fd).history = s.history ++ [.add fd] := by
  unfold RecvList.addRecvList
  split
  · rename_i hnull
    have hout := Ring.notMem_of_null h (of_decide_eq_true hnull).1
    refine .inr ⟨fun hmem => hout (mem_cons_of_mem _ (mem_map_of_mem hmem)), ?_, rfl⟩
    have hins := Ring.insertBefore h hout
    have hrot := Ring.rotate (show Ring _ ([RecvNode.sock fd] ++ _) from hins)
    rw [RecvList.Has, map_append]
    exact hrot
  · exact .inl rfl

end Iteration

/-! ## Taking turns -/

namespace RecvList

variable {l₀ : List SockFd} {s s' : RecvList}

/-- The list is the queue after what happened to it. -/
def Follows (l₀ : List SockFd) (s : RecvList) : Prop :=
  l₀.Nodup ∧ ∃ l, s.Has l ∧ (RoundRobin.system l₀).run l₀ s.history = some l

/-- Every call does to the list what its visits do to the queue. -/
theorem Follows.step (h : Follows l₀ s) {a : Act} (hs : s.step a = some s') : Follows l₀ s' := by
  obtain ⟨hnodup, l, hhas, hrun⟩ := h
  refine ⟨hnodup, ?_⟩
  cases a with
  | add fd =>
    obtain rfl := Option.some.inj hs
    rcases hhas.addRecvList fd with hsame | ⟨hnot, hadd, hhistory⟩
    · rw [hsame]
      exact ⟨l, hhas, hrun⟩
    · refine ⟨_, hadd, ?_⟩
      rw [hhistory, Transition.System.run_append, hrun, Option.bind_some]
      exact congrArg (Option.bind · _) (if_neg hnot)
  | read maxNum found =>
    obtain ⟨s₁, hread, hserves⟩ := hhas.readRecvList maxNum found
    obtain rfl := Option.some.inj (hread.symm.trans hs)
    have hserve : (RoundRobin.system l₀).run (l.take maxNum.toNat ++ l.drop maxNum.toNat)
        ((l.take maxNum.toNat).map fun fd => .serve fd (found fd).hasMail) =
          some (l.drop maxNum.toNat ++
            (l.take maxNum.toNat).filter fun fd => (found fd).hasMail) := RoundRobin.run_serve _ _
    rw [take_append_drop] at hserve
    refine ⟨_, hserves.has, ?_⟩
    rw [hserves.history, Transition.System.run_append, hrun, Option.bind_some, hserve]

/-- In every state that is reached. -/
theorem Follows.reachable (hs : (system l₀).Reachable s) : Follows l₀ s := by
  refine Transition.System.invariant (I := Follows l₀) ?_ ?_ hs
  · rintro t ⟨hhas, hhistory⟩
    exact ⟨hhas.nodup, l₀, hhas, by rw [hhistory]; rfl⟩
  · intro _ _ _ _ ih hstep
    exact ih.step hstep

/-- For every list of sockets and every order of the calls of `add_recv_list` and `read_recv_list`,
with any mailboxes found: a call of `read_recv_list` visits the first sockets, as many as it may,
unlinks those whose mailbox is empty or gone, and leaves the others behind those that it did not
visit; and between two visits of a socket every other socket that was linked at the first visit is
visited, too. -/
theorem read_recv_list_round_robin (hs : (system l₀).Reachable s) :
    ∃ l, s.Has l ∧ (RoundRobin.system l₀).run l₀ s.history = some l ∧
      (∀ maxNum found, ∃ s', s.step (.read maxNum found) = some s' ∧
        s.Serves l maxNum.toNat found s') ∧
      ∀ before between after fd stays stays',
        s.history = before ++ .serve fd stays :: between ++ .serve fd stays' :: after →
        ∃ q, (RoundRobin.system l₀).run l₀ before = some q ∧
          ∀ fd' ∈ q, fd' ≠ fd → ∃ stays, .serve fd' stays ∈ between := by
  obtain ⟨hnodup, l, hhas, hrun⟩ := Follows.reachable hs
  refine ⟨l, hhas, hrun, hhas.readRecvList, fun before between after fd stays stays' heq => ?_⟩
  rw [heq, append_assoc, Transition.System.run_append, Option.bind_eq_some_iff] at hrun
  obtain ⟨q, hbefore, hrest⟩ := hrun
  refine ⟨q, hbefore, fun fd' hmem hfd' => ?_⟩
  have hsplit : (RoundRobin.Event.serve fd stays :: between) ++ .serve fd stays' :: after =
      (.serve fd stays :: between ++ [.serve fd stays']) ++ after := by
    rw [append_assoc, singleton_append]
  rw [hsplit, Transition.System.run_append, Option.bind_eq_some_iff] at hrest
  obtain ⟨q', hturn, -⟩ := hrest
  exact RoundRobin.served_between (RoundRobin.nodup_run hnodup hbefore) hmem hfd' hturn

/-- An empty list. -/
private def noSocks : RecvList where
  links := ⟨fun n => if n = .list then some .list else none,
    fun n => if n = .list then some .list else none⟩
  sockEvents := []
  history := []

/-- The head of an empty list is linked to itself. -/
private theorem noSocks_has : noSocks.Has [] := by
  have hlist : ∀ a b, After [RecvNode.list] a b → a = .list ∧ b = .list := by
    rintro a b (hadj | ⟨ha, hb⟩)
    · exact absurd hadj not_adjacent_singleton
    · exact ⟨(Option.some.inj ha).symm, (Option.some.inj hb).symm⟩
  refine ⟨nodup_singleton _, fun a b hab => ?_, fun a b hab => ?_⟩
  · obtain ⟨rfl, rfl⟩ := hlist a b hab
    rfl
  · obtain ⟨rfl, rfl⟩ := hlist a b hab
    rfl

/-- Of two sockets with mail the first one is visited, and then it is behind the other one. -/
theorem read_recv_list_round_robin_two :
    ∃ s, (system []).Reachable s ∧ ∃ s', s.step (.read 1 fun _ => ⟨some 1, 5⟩) = some s' ∧
      s'.Has [5, 3] := by
  have hs : (system []).Reachable ((noSocks.addRecvList 3).addRecvList 5) :=
    Transition.System.reachable_of_run (l := [.add 3, .add 5]) (.init ⟨noSocks_has, rfl⟩) rfl
  obtain ⟨l, hhas, hrun, hread, -⟩ := read_recv_list_round_robin hs
  obtain ⟨s', hstep, hserves⟩ := hread 1 fun _ => ⟨some 1, 5⟩
  have hl : some [3, 5] = some l := hrun
  obtain rfl := Option.some.inj hl
  exact ⟨_, hs, s', hstep, hserves.has⟩

end RecvList

end Gazelle
