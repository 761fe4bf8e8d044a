import Gazelle.LocklessQueue.Invariant

/-!
# The lockless queue is a FIFO

What the callers of `lockless_queue_mpsc_push` and `lockless_queue_mpsc_pop` rely on, in every
interleaving:

* `lockless_queue_fifo`: pop returns the pushed nodes in the order of their exchanges, each
  once and never the stub; nothing is lost; and pop returns `NULL` only when nothing was there
  to return or some push was half done during the pop.
* `lockless_queue_null_without_gap`: the half done push need not last until pop returns.
-/

namespace Gazelle

open List

/-- The nodes of the list from `tail` to `head`, every one linked behind the one before. -/
structure LocklessQueue.Linked {ν : Type*} (q : LocklessQueue ν) (nodes : List (QueueNode ν)) :
    Prop where
  /-- The first node is `tail`. -/
  tail : nodes.head? = some q.tail
  /-- The last node is `head`. -/
  head : nodes.getLast? = some q.head
  /-- Every node points to the next one. -/
  links : ∀ a b, Adjacent nodes a b → q.next a = some b
  /-- The last node points nowhere. -/
  end_next : q.next q.head = none

namespace QueueSys

variable {ι ν : Type*} [DecidableEq ι] [DecidableEq ν] {s : QueueSys ι ν}

omit [DecidableEq ι] in
/-- When no push is half done, the nodes not yet returned are linked from `tail` to `head`. -/
theorem QueueInv.linked (h : QueueInv s) (hidle : s.consumer = .idle) (hgap : ¬ s.Gap) :
    s.queue.Linked s.chain where
  tail := h.tail
  head := h.head
  links a b hab := by
    rcases h.links a b hab with hb | ⟨-, ⟨i, node, hi, -⟩ | ⟨hl, -⟩⟩
    · exact hb
    · exact absurd ⟨i, a, node, hi⟩ hgap
    · rw [hidle] at hl
      exact hl.elim
  end_next := h.end_next

omit [DecidableEq ι] in
/-- A message whose push completed before the pop began and which is not in the chain any more
has been returned, when pop has nothing in its hands. -/
theorem QueueInv.count_before_le (h : QueueInv s) (hret : s.consumer = .ret none)
    (hchain : s.chain = [.stub]) (n : ν) :
    s.completedBefore.count n ≤ s.popped.count (.msg n) := by
  have horder := h.order
  rw [hret, hchain] at horder
  have hpopped : s.popped = s.exchanged.map .msg := by simpa [PopPc.inHand] using horder.symm
  have hinj : Function.Injective (QueueNode.msg : ν → QueueNode ν) := fun _ _ => QueueNode.msg.inj
  calc s.completedBefore.count n
      ≤ s.completed.count n := h.before.sublist.count_le n
    _ ≤ s.exchanged.count n := h.completed n
    _ = s.popped.count (.msg n) := by rw [hpopped, count_map_of_injective _ _ hinj]

/-- The messages returned by pop are those pushed, in the order of their exchanges of `head`,
each once. Pop returns `NULL` only when every message whose push completed before the pop began
has been returned, or some push was between its exchange and its link store at some moment of
the pop. Between the calls, when no push is half done, the messages not yet returned are linked
from `tail` to `head`. -/
theorem lockless_queue_fifo {next : QueueNode ν → Option (QueueNode ν)}
    (hs : (system ι next).Reachable s) :
    s.popped <+: s.exchanged.map .msg ∧
      (s.consumer = .ret none →
        (∀ n, s.completedBefore.count n ≤ s.popped.count (.msg n)) ∨ s.gapSeen) ∧
      (s.consumer = .idle → ¬ s.Gap →
        ∃ nodes, s.queue.Linked nodes ∧
          s.exchanged.map .msg = s.popped ++ nodes.filter (· ≠ .stub)) := by
  have h := QueueInv.reachable hs
  refine ⟨?_, fun hret => ?_, fun hidle hgap => ⟨s.chain, h.linked hidle hgap, ?_⟩⟩
  · rw [h.order, append_assoc]
    exact prefix_append _ _
  · have hcons := h.consumer
    rw [hret] at hcons
    exact hcons.imp_left (h.count_before_le hret)
  · have horder := h.order
    rw [hidle] at horder
    simpa [PopPc.inHand] using horder

/-- One producer pushes `false` completely. A pop skips the stub and finds no successor of
`false`. The producer then pushes `true` completely, and the pop sees another head. -/
private def nullRun : List (QueueAct Unit Bool) :=
  [.push () false, .producer (), .producer (), .producer (), .pop, .consumer, .consumer,
    .consumer, .consumer, .push () true, .producer (), .producer (), .producer (), .consumer]

/-- The state in which that pop returns `NULL`. -/
private theorem nullRun_ends : ∃ s, (system Unit fun _ : QueueNode Bool => none).Reachable s ∧
    s.consumer = .ret none ∧ s.completedBefore = [false] ∧ s.popped = [] ∧ s.producer () = .idle :=
  ⟨_, Transition.System.reachable_of_run (l := nullRun) (.init rfl) rfl, rfl, rfl, rfl, rfl⟩

/-- The queue with two messages, of which pop took one out. -/
theorem lockless_queue_fifo_two :
    ∃ s, (system Unit fun _ : QueueNode Bool => none).Reachable s ∧ s.exchanged = [false, true] ∧
      s.popped <+: s.exchanged.map .msg ∧
      (s.consumer = .ret none →
        (∀ n, s.completedBefore.count n ≤ s.popped.count (.msg n)) ∨ s.gapSeen) ∧
      (s.consumer = .idle → ¬ s.Gap →
        ∃ nodes, s.queue.Linked nodes ∧
          s.exchanged.map .msg = s.popped ++ nodes.filter (· ≠ .stub)) := by
  have hs := Transition.System.reachable_of_run (M := system Unit fun _ : QueueNode Bool => none)
    (l := nullRun ++ [.consumer, .pop, .consumer, .consumer, .consumer, .consumer])
    (.init rfl) rfl
  exact ⟨_, hs, rfl, lockless_queue_fifo hs⟩

/-- Pop returns `NULL` although a message whose push completed before the pop began is not yet
returned, and no push is half done any more. -/
theorem lockless_queue_null_without_gap :
    ¬ ∀ s, (system Unit fun _ : QueueNode Bool => none).Reachable s → s.consumer = .ret none →
      (∀ n, s.completedBefore.count n ≤ s.popped.count (.msg n)) ∨ s.Gap := by
  intro hclaim
  obtain ⟨s, hs, hret, hbefore, hpopped, hidle⟩ := nullRun_ends
  rcases hclaim s hs hret with hcount | ⟨i, oldHead, node, hi⟩
  · have hfalse := hcount false
    rw [hbefore, hpopped] at hfalse
    simp at hfalse
  · rw [hidle] at hi
    cases hi

end QueueSys

end Gazelle
