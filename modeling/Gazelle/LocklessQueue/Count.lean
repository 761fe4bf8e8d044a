import Gazelle.Lists.Linked
import Gazelle.LocklessQueue.Fifo
import Mathlib.Algebra.Group.Nat.Defs

/-!
# The number of messages in the lockless queue

`lockless_queue_count` follows the `next` pointers from `tail` on. The stub is not counted when it
is at the tail, but it may also be linked behind other nodes: `lockless_queue_mpsc_pop` pushes it
back when it takes the last message, and leaves it there when a producer has exchanged in between.

* `countLoop_of_linked`: the loop counts the nodes that are linked;
* `QueueSys.counts_iff`: when the count is right.
-/

namespace Gazelle

open List

/-- Leaving out one element of a list that has it once, if at all. -/
theorem length_filter_ne {α : Type*} [DecidableEq α] {l : List α} (h : l.Nodup) (a : α) :
    (l.filter (· ≠ a)).length + (if a ∈ l then 1 else 0) = l.length := by
  have herase : l.filter (· ≠ a) = l.erase a := by
    rw [h.erase_eq_filter]
    exact List.filter_congr fun x _ => decide_not
  rw [herase]
  split
  · rename_i hmem
    rw [List.length_erase_of_mem hmem]
    exact Nat.sub_add_cancel (List.length_pos_of_mem hmem)
  · rename_i hmem
    rw [List.erase_of_not_mem hmem, Nat.add_zero]

namespace LocklessQueue

variable {ν : Type*} [DecidableEq ν] (q : LocklessQueue ν)

/-- `lockless_queue_empty`. -/
def locklessQueueEmpty : Bool := q.head = q.tail ∧ q.tail = .stub

/-- The loop `while (tail)`: the value of `count` at its end, `none` when it takes more rounds. -/
def countLoop : ℕ → Option (QueueNode ν) → BitVec 32 → Option (BitVec 32)
  | _, none, count => some count
  | 0, some _, _ => none
  | rounds + 1, some tail, count => countLoop rounds (q.next tail) (count + 1)

/-- `lockless_queue_count`. -/
def locklessQueueCount (rounds : ℕ) : Option (BitVec 32) :=
  if q.locklessQueueEmpty then some 0
  else q.countLoop rounds (if q.tail = .stub then q.next .stub else some q.tail) 0

end LocklessQueue

/-- The loop counts the nodes that are linked. -/
theorem countLoop_of_linked {ν : Type*} {q : LocklessQueue ν} {o : Option (QueueNode ν)}
    {l : List (QueueNode ν)} (h : Linked q.next o l) {rounds : ℕ} (hrounds : l.length ≤ rounds)
    (count : BitVec 32) : q.countLoop rounds o count = some (count + BitVec.ofNat 32 l.length) := by
  induction l generalizing o rounds count with
  | nil =>
    obtain rfl := Linked.nil_iff.1 h
    cases rounds <;> exact congrArg some (BitVec.add_zero count).symm
  | cons p l ih =>
    obtain ⟨rfl, hl⟩ := h
    obtain ⟨rounds, rfl⟩ : ∃ r, rounds = r + 1 :=
      ⟨rounds - 1, by rw [List.length_cons] at hrounds; omega⟩
    rw [List.length_cons, Nat.add_le_add_iff_right] at hrounds
    rw [LocklessQueue.countLoop, ih hl hrounds, List.length_cons, Nat.add_comm, BitVec.ofNat_add,
      ← BitVec.add_assoc]
    rfl

/-- The nodes from `tail` to `head` are linked, from each node on. -/
theorem linked_of_suffix {ν : Type*} {q : LocklessQueue ν} {nodes pre l : List (QueueNode ν)}
    (h : q.Linked nodes) (hl : pre ++ l = nodes) (hne : l ≠ []) : Linked q.next l.head? l := by
  induction l generalizing pre with
  | nil => exact absurd rfl hne
  | cons a l ih =>
    refine ⟨rfl, ?_⟩
    cases l with
    | nil =>
      -- the last node is the head
      have hhead := h.head
      rw [← hl, List.getLast?_append_of_ne_nil _ hne, List.getLast?_singleton] at hhead
      rw [Option.some.inj hhead]
      exact h.end_next
    | cons b rest =>
      have hrest : pre ++ [a] ++ b :: rest = nodes := by
        rw [List.append_assoc]
        exact hl
      rw [h.links a b ⟨pre, rest, hl.symm⟩]
      exact ih hrest (List.cons_ne_nil _ _)

namespace QueueSys

variable {ι ν : Type*} [DecidableEq ι] [DecidableEq ν]

/-- The number of nodes pushed and not popped yet. -/
def pending (s : QueueSys ι ν) : ℕ := s.exchanged.length - s.popped.length

/-- The stub is linked behind another node. -/
def StubBehind (s : QueueSys ι ν) : Prop := .stub ∈ s.chain.tail

/-- The two functions are right about the number of nodes pending. -/
structure Counts (s : QueueSys ι ν) : Prop where
  /-- `lockless_queue_count` ends and returns the number. -/
  count : ∃ enough count, (∀ rounds, enough ≤ rounds →
    s.queue.locklessQueueCount rounds = some count) ∧ count.toInt = s.pending
  /-- `lockless_queue_empty` holds only if there is none. -/
  empty : s.queue.locklessQueueEmpty → s.pending = 0

section Facts

variable {s : QueueSys ι ν} (h : QueueInv s)

include h

omit [DecidableEq ι] in
/-- The nodes pushed and not popped are the messages of the chain. -/
theorem pending_eq (hidle : s.consumer = .idle) :
    s.pending = (s.chain.filter (· ≠ .stub)).length := by
  have hlen := congrArg List.length h.order
  have hhand : (PopPc.idle : PopPc ν).inHand = [] := rfl
  rw [hidle, hhand, List.append_nil, List.length_map, List.length_append] at hlen
  rw [pending, hlen, Nat.add_sub_cancel_left]

omit [DecidableEq ι] in
/-- What `lockless_queue_empty` finds is a queue without messages. -/
theorem chain_of_empty (hempty : s.queue.locklessQueueEmpty) : s.chain = [.stub] := by
  obtain ⟨heq, hstub⟩ := of_decide_eq_true hempty
  rw [h.chain_eq_singleton heq.symm, hstub]

omit [DecidableEq ι] in
/-- The count is that of the messages, and one more if the stub is behind another node. -/
theorem count_eq (hidle : s.consumer = .idle) (hgap : ¬ s.Gap) {rounds : ℕ}
    (hrounds : s.chain.length ≤ rounds) :
    s.queue.locklessQueueCount rounds =
      some (BitVec.ofNat 32 (s.pending + if .stub ∈ s.chain.tail then 1 else 0)) := by
  have hpending := pending_eq h hidle
  have hnodup := h.nodup
  obtain ⟨rest, hchain⟩ : ∃ rest, s.chain = s.queue.tail :: rest :=
    ⟨s.chain.tail, List.eq_cons_of_mem_head? h.tail⟩
  have hlinked := linked_of_suffix (h.linked hidle hgap) (List.nil_append s.chain)
    (by rw [hchain]; exact List.cons_ne_nil _ _)
  have hlen := length_filter_ne hnodup (.stub : QueueNode ν)
  rw [← hpending] at hlen
  rw [hchain] at hpending hnodup hrounds hlinked hlen
  rw [hchain, List.tail_cons]
  have htail := (List.nodup_cons.1 hnodup).1
  unfold LocklessQueue.locklessQueueCount
  split
  · -- the queue is empty
    rename_i hempty
    have hone := chain_of_empty h hempty
    rw [hchain] at hone
    obtain ⟨hstub, rfl⟩ := List.cons.inj hone
    rw [hpending, hstub]
    rfl
  · rename_i hempty
    by_cases hstub : s.queue.tail = .stub
    · -- the stub at the tail is skipped
      rw [hstub] at htail hlen
      rw [if_pos List.mem_cons_self, List.length_cons, Nat.add_right_cancel_iff] at hlen
      rw [hstub] at hlinked
      have hrest := countLoop_of_linked hlinked.2
        (Nat.le_of_succ_le (List.length_cons ▸ hrounds)) 0
      rw [if_pos hstub, hrest, if_neg htail, Nat.add_zero, hlen]
      exact congrArg some (BitVec.zero_add _)
    · have hmem : .stub ∈ s.queue.tail :: rest ↔ .stub ∈ rest := by
        rw [List.mem_cons, or_iff_right fun heq => hstub heq.symm]
      rw [List.head?_cons] at hlinked
      have hall := countLoop_of_linked hlinked hrounds 0
      simp only [hmem] at hlen
      rw [if_neg hstub, hall, hlen]
      exact congrArg some (BitVec.zero_add _)

omit [DecidableEq ι] in
/-- Both are right when the count is. -/
theorem counts_iff_toInt (hidle : s.consumer = .idle) (hgap : ¬ s.Gap) :
    s.Counts ↔
      (BitVec.ofNat 32 (s.pending + if .stub ∈ s.chain.tail then 1 else 0)).toInt =
        s.pending := by
  constructor
  · rintro ⟨⟨enough, count, hcount, heq⟩, -⟩
    have hmax := hcount (max enough s.chain.length) (Nat.le_max_left _ _)
    rw [count_eq h hidle hgap (Nat.le_max_right _ _)] at hmax
    exact (Option.some.inj hmax) ▸ heq
  · intro heq
    refine ⟨⟨_, _, fun rounds hrounds => count_eq h hidle hgap hrounds, heq⟩, fun hempty => ?_⟩
    rw [pending_eq h hidle, chain_of_empty h hempty]
    rfl

end Facts

/-- A number that is shown right by an `int32_t`, when it may have been raised by one. -/
theorem toInt_eq_iff {n : ℕ} {p : Prop} [Decidable p] :
    (BitVec.ofNat 32 (n + if p then 1 else 0)).toInt = n ↔ ¬ p ∧ n < 2 ^ 31 := by
  rw [BitVec.toInt_eq_toNat_cond, BitVec.toNat_ofNat]
  by_cases hp : p
  · -- one more is either negative or larger
    simp only [hp, if_true, not_true_eq_false, false_and, iff_false]
    split <;> omega
  · simp only [hp, if_false, Nat.add_zero, not_false_eq_true, true_and]
    split <;> omega

/-- After any interleaving of pushes and pops, when no push is between its exchange and its link
store: `lockless_queue_count` and `lockless_queue_empty` are right if and only if the stub is not
linked behind another node, and the number is an `int32_t`. -/
theorem counts_iff {next : QueueNode ν → Option (QueueNode ν)} {s : QueueSys ι ν}
    (hs : (system ι next).Reachable s) (hidle : s.consumer = .idle) (hgap : ¬ s.Gap) :
    s.Counts ↔ ¬ s.StubBehind ∧ s.pending < 2 ^ 31 := by
  rw [counts_iff_toInt (QueueInv.reachable hs) hidle hgap, StubBehind]
  exact toInt_eq_iff

/-- Two producers push the messages 1, 2 and 3, and a pop takes the first one. -/
private def twoProducers : List (QueueAct Bool ℕ) :=
  [.push true 1, .push false 2, .producer true, .producer false, .producer true, .producer false,
    .producer false, .producer true, .push true 3, .producer true, .producer true, .producer true,
    .pop, .consumer, .consumer, .consumer, .consumer, .consumer, .consumer]

/-- Two messages are left, and they are counted. -/
theorem counts_iff_two :
    ∃ s, (system Bool fun _ : QueueNode ℕ => none).Reachable s ∧ s.popped = [.msg 1] ∧
      s.chain = [.msg 2, .msg 3] ∧ s.pending = 2 ∧ s.Counts := by
  obtain ⟨s, hs, hidle, hproducer, hpopped, hchain, hpending⟩ : ∃ s,
      (system Bool fun _ : QueueNode ℕ => none).Reachable s ∧ s.consumer = .idle ∧
        (∀ i, s.producer i = .idle) ∧ s.popped = [.msg 1] ∧ s.chain = [.msg 2, .msg 3] ∧
          s.pending = 2 :=
    ⟨_, Transition.System.reachable_of_run (l := twoProducers) (.init rfl) rfl, rfl,
      fun i => by cases i <;> rfl, rfl, rfl, rfl⟩
  have hgap : ¬ s.Gap := by
    rintro ⟨i, oldHead, node, hi⟩
    rw [hproducer] at hi
    cases hi
  refine ⟨s, hs, hpopped, hchain, hpending, (counts_iff hs hidle hgap).2 ⟨?_, ?_⟩⟩
  · rw [StubBehind, hchain]
    decide
  · rw [hpending]
    decide

/-- A pop takes the last message `false`, but before it pushes the stub back, the producer exchanges
`true` in. So it returns `NULL`, and the stub stays behind the two messages. -/
private def stubRun : List (QueueAct Unit Bool) :=
  [.push () false, .producer (), .producer (), .producer (), .pop, .consumer, .consumer,
    .consumer, .consumer, .consumer, .push () true, .producer (), .producer (), .consumer,
    .consumer, .consumer, .consumer, .consumer, .producer ()]

/-- Then the stub is counted, too. -/
theorem not_counts_stub :
    ¬ ∀ s, (system Unit fun _ : QueueNode Bool => none).Reachable s → s.consumer = .idle →
      ¬ s.Gap → s.Counts := by
  intro hclaim
  obtain ⟨s, hs, hidle, hproducer, hchain, hpending⟩ : ∃ s,
      (system Unit fun _ : QueueNode Bool => none).Reachable s ∧ s.consumer = .idle ∧
        s.producer () = .idle ∧ s.chain = [.msg false, .msg true, .stub] ∧ s.pending = 2 :=
    ⟨_, Transition.System.reachable_of_run (l := stubRun) (.init rfl) rfl, rfl, rfl, rfl, rfl⟩
  have hgap : ¬ s.Gap := by
    rintro ⟨i, oldHead, node, hi⟩
    rw [hproducer] at hi
    cases hi
  have hcount := (counts_iff_toInt (QueueInv.reachable hs) hidle hgap).1 (hclaim s hs hidle hgap)
  rw [toInt_eq_iff, hchain] at hcount
  exact hcount.1 (List.mem_cons_of_mem _ List.mem_cons_self)

end QueueSys

end Gazelle
