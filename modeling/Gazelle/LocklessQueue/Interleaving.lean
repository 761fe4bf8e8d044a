import Gazelle.Transition.System
import Mathlib.Logic.Function.Basic
import Mathlib.Tactic.Common

/-!
# The lockless queue under many producers

The intrusive multi-producer single-consumer queue of
`src/lstack/include/lstack_lockless_queue.h`, with `lockless_queue_mpsc_push` and
`lockless_queue_mpsc_pop` split into their memory accesses. The exchange of `head` and the store
to `old_head->next` are two steps, between which the list is disconnected. The consumer pushes
the stub back by the same two steps.

The state records what the functions did: nothing reads the fields from `exchanged` on.
-/

namespace Gazelle

/-- The address of a queue node: the stub embedded in the queue, or the node of a message. -/
inductive QueueNode (ν : Type*)
  /-- `&queue->stub`. -/
  | stub
  /-- The `queue_node` of a message. -/
  | msg (n : ν)
  deriving DecidableEq

/-- `struct lockless_queue` with the `next` pointers of all nodes. -/
structure LocklessQueue (ν : Type*) where
  /-- The last node exchanged in. -/
  head : QueueNode ν
  /-- The first node of the list, which only the consumer moves. -/
  tail : QueueNode ν
  /-- The `next` pointers, `none` being `NULL`. -/
  next : QueueNode ν → Option (QueueNode ν)

namespace LocklessQueue

variable {ν : Type*} [DecidableEq ν]

/-- Store to `node->next`. -/
def setNext (q : LocklessQueue ν) (node : QueueNode ν) (p : Option (QueueNode ν)) :
    LocklessQueue ν :=
  { q with next := Function.update q.next node p }

/-- `lockless_queue_init`. -/
def init (next : QueueNode ν → Option (QueueNode ν)) : LocklessQueue ν :=
  { head := .stub, tail := .stub, next := Function.update next .stub none }

end LocklessQueue

/-- Where a producer stands in `lockless_queue_mpsc_push`, with its live local variables. -/
inductive PushPc (ν : Type*)
  /-- Outside the function. -/
  | idle
  /-- Before the store of `NULL` to `node->next`. -/
  | clear (node : ν)
  /-- Before the exchange of `head`. -/
  | exchange (node : ν)
  /-- Before the store to `old_head->next`. -/
  | link (oldHead : QueueNode ν) (node : ν)
  deriving DecidableEq

/-- Where the consumer stands in `lockless_queue_mpsc_pop`, with its live local variables. -/
inductive PopPc (ν : Type*)
  /-- Outside the function. -/
  | idle
  /-- Before the load of `queue->tail`. -/
  | loadTail
  /-- Before the first load of `tail->next`. -/
  | loadNext (tail : QueueNode ν)
  /-- `tail` is the stub: before the store of `next` to `queue->tail`. -/
  | skipStub (next : QueueNode ν)
  /-- The stub is skipped: before the load of `next->next`. -/
  | reloadNext (tail : QueueNode ν)
  /-- Before the store of `next` to `queue->tail` that takes `tail` out. -/
  | take (tail next : QueueNode ν)
  /-- `tail` has no successor: before the load of `queue->head`. -/
  | loadHead (tail : QueueNode ν)
  /-- `tail` is the head: before the store of `NULL` to the `next` of the stub. -/
  | stubClear (tail : QueueNode ν)
  /-- Before the exchange of `head` with the stub. -/
  | stubExchange (tail : QueueNode ν)
  /-- Before the store of the stub to `old_head->next`. -/
  | stubLink (tail oldHead : QueueNode ν)
  /-- Before the last load of `tail->next`. -/
  | lastNext (tail : QueueNode ν)
  /-- About to return a node or `NULL`. -/
  | ret (res : Option (QueueNode ν))
  deriving DecidableEq

/-- The queue, its producers `ι`, its consumer, and the history of what they did. -/
structure QueueSys (ι ν : Type*) where
  /-- The shared queue. -/
  queue : LocklessQueue ν
  /-- The producers. -/
  producer : ι → PushPc ν
  /-- The consumer. -/
  consumer : PopPc ν
  /-- The nodes that a push was called with and that no pop has returned since. -/
  busy : List ν
  /-- The nodes pushed, in the order of their exchanges of `head`. -/
  exchanged : List ν
  /-- The nodes whose push has completed. -/
  completed : List ν
  /-- The nodes returned by pop. -/
  popped : List (QueueNode ν)
  /-- The nodes from `tail` to `head`, in the order of their exchanges. -/
  chain : List (QueueNode ν)
  /-- `completed` as it was when the current pop began. -/
  completedBefore : List ν
  /-- At some moment since the current pop began, a producer was between its exchange and its
  store to `old_head->next`. -/
  gapSeen : Prop

/-- The actions: a thread calls a function, or makes its next access. -/
inductive QueueAct (ι ν : Type*)
  /-- Producer `i` calls `lockless_queue_mpsc_push` with a node that is not in use. -/
  | push (i : ι) (node : ν)
  /-- Producer `i` makes its next access. -/
  | producer (i : ι)
  /-- The consumer calls `lockless_queue_mpsc_pop`. -/
  | pop
  /-- The consumer makes its next access, or returns. -/
  | consumer

namespace QueueSys

variable {ι ν : Type*} [DecidableEq ι] [DecidableEq ν]

/-- Some producer is between its exchange and its store to `old_head->next`. -/
def Gap (s : QueueSys ι ν) : Prop := ∃ i oldHead node, s.producer i = .link oldHead node

/-- `lockless_queue_init`, with no call made. The `next` fields of the messages are arbitrary. -/
def create (next : QueueNode ν → Option (QueueNode ν)) : QueueSys ι ν where
  queue := .init next
  producer := fun _ => .idle
  consumer := .idle
  busy := []
  exchanged := []
  completed := []
  popped := []
  chain := [.stub]
  completedBefore := []
  gapSeen := False

/-- The next access of producer `i`. -/
def producerStep (s : QueueSys ι ν) (i : ι) : Option (QueueSys ι ν) :=
  match s.producer i with
  | .idle => none
  | .clear node =>
    some { s with
      queue := s.queue.setNext (.msg node) none
      producer := Function.update s.producer i (.exchange node) }
  | .exchange node =>
    some { s with
      queue := { s.queue with head := .msg node }
      producer := Function.update s.producer i (.link s.queue.head node)
      exchanged := s.exchanged ++ [node]
      chain := s.chain ++ [.msg node]
      gapSeen := True }
  | .link oldHead node =>
    some { s with
      queue := s.queue.setNext oldHead (some (.msg node))
      producer := Function.update s.producer i .idle
      completed := s.completed ++ [node] }

/-- The next access of the consumer. -/
def consumerStep (s : QueueSys ι ν) : Option (QueueSys ι ν) :=
  match s.consumer with
  | .idle => none
  | .loadTail => some { s with consumer := .loadNext s.queue.tail }
  | .loadNext tail =>
    match s.queue.next tail with
    | none =>
      if tail = .stub then some { s with consumer := .ret none }
      else some { s with consumer := .loadHead tail }
    | some next =>
      if tail = .stub then some { s with consumer := .skipStub next }
      else some { s with consumer := .take tail next }
  | .skipStub next =>
    some { s with
      queue := { s.queue with tail := next }
      consumer := .reloadNext next
      chain := s.chain.tail }
  | .reloadNext tail =>
    match s.queue.next tail with
    | none => some { s with consumer := .loadHead tail }
    | some next => some { s with consumer := .take tail next }
  | .take tail next =>
    some { s with
      queue := { s.queue with tail := next }
      consumer := .ret (some tail)
      chain := s.chain.tail }
  | .loadHead tail =>
    if tail ≠ s.queue.head then some { s with consumer := .ret none }
    else some { s with consumer := .stubClear tail }
  | .stubClear tail =>
    some { s with queue := s.queue.setNext .stub none, consumer := .stubExchange tail }
  | .stubExchange tail =>
    some { s with
      queue := { s.queue with head := .stub }
      consumer := .stubLink tail s.queue.head
      chain := s.chain ++ [.stub] }
  | .stubLink tail oldHead =>
    some { s with
      queue := s.queue.setNext oldHead (some .stub)
      consumer := .lastNext tail }
  | .lastNext tail =>
    match s.queue.next tail with
    | none => some { s with consumer := .ret none }
    | some next => some { s with consumer := .take tail next }
  | .ret none => some { s with consumer := .idle }
  | .ret (some node) =>
    some { s with
      consumer := .idle
      busy := s.busy.filter fun n => node ≠ .msg n
      popped := s.popped ++ [node] }

/-- One step of one thread. A node may be pushed again only after it was popped. -/
def step (s : QueueSys ι ν) : QueueAct ι ν → Option (QueueSys ι ν)
  | .push i node =>
    match s.producer i with
    | .idle =>
      if node ∈ s.busy then none
      else some { s with
        producer := Function.update s.producer i (.clear node)
        busy := node :: s.busy }
    | _ => none
  | .producer i => s.producerStep i
  | .pop =>
    match s.consumer with
    | .idle =>
      some { s with
        consumer := .loadTail
        completedBefore := s.completed
        gapSeen := s.Gap }
    | _ => none
  | .consumer => s.consumerStep

/-- All interleavings of the producers `ι` and the consumer from `lockless_queue_init` on. -/
def system (ι : Type*) [DecidableEq ι] (next : QueueNode ν → Option (QueueNode ν)) :
    Transition.System (QueueSys ι ν) (QueueAct ι ν) where
  Init s := s = create next
  step := step

end QueueSys

end Gazelle
