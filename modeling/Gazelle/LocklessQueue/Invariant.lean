import Gazelle.LocklessQueue.Interleaving
import Gazelle.Lists.Adjacent
import Mathlib.Data.List.Count

/-!
# The invariant of the lockless queue

The nodes between `tail` and `head`, in the order of their exchanges, form the chain. Every node
of the chain points to the next one, unless the thread that exchanged the next one in has still
to store that pointer. `QueueInv` says this, together with what every thread knows from the
values it loaded, and relates the chain to the histories.

* `QueueInv.step`: every step of every thread keeps the invariant;
* `QueueInv.reachable`: it holds in every interleaving from `lockless_queue_init` on.
-/

namespace Gazelle

open List

/-- The node a producer is pushing. -/
def PushPc.node {ν : Type*} : PushPc ν → Option ν
  | .idle => none
  | .clear node => some node
  | .exchange node => some node
  | .link _ node => some node

/-- The node taken out of the queue that pop is about to return. -/
def PopPc.inHand {ν : Type*} : PopPc ν → List (QueueNode ν)
  | .ret (some node) => [node]
  | _ => []

/-- The node whose `next` a producer knows. -/
def PushPc.known {ν : Type*} : PushPc ν → Option (QueueNode ν)
  | .exchange node => some (.msg node)
  | .link oldHead _ => some oldHead
  | _ => none

/-- The node whose `next` the consumer knows. -/
def PopPc.known {ν : Type*} : PopPc ν → Option (QueueNode ν)
  | .skipStub _ => some .stub
  | .take tail _ => some tail
  | .stubExchange _ => some .stub
  | .stubLink _ oldHead => some oldHead
  | _ => none

/-- The consumer has exchanged the stub in and not yet linked it behind `oldHead`. -/
def PopPc.Links {ν : Type*} (oldHead : QueueNode ν) : PopPc ν → Prop
  | .stubLink _ old => old = oldHead
  | _ => False

/-- A store to the `next` of a node leaves that of the others alone. -/
theorem LocklessQueue.next_setNext_of_ne {ν : Type*} [DecidableEq ν] (q : LocklessQueue ν)
    {a p : QueueNode ν} (h : a ≠ p) (next : Option (QueueNode ν)) :
    (q.setNext p next).next a = q.next a := Function.update_of_ne h ..

namespace QueueSys

variable {ι ν : Type*} [DecidableEq ι] [DecidableEq ν]

/-- The node `b` was exchanged in behind `a`, and the store of `b` to `a->next` is still to
come. -/
def Pending (s : QueueSys ι ν) (a b : QueueNode ν) : Prop :=
  (∃ i node, s.producer i = .link a node ∧ b = .msg node) ∨ (s.consumer.Links a ∧ b = .stub)

/-- What a producer's local variables say about the queue. -/
def ProducerInv (s : QueueSys ι ν) : PushPc ν → Prop
  | .idle => True
  | .clear node => node ∈ s.busy ∧ .msg node ∉ s.chain
  | .exchange node => node ∈ s.busy ∧ .msg node ∉ s.chain ∧ s.queue.next (.msg node) = none
  | .link oldHead node =>
    Adjacent s.chain oldHead (.msg node) ∧ s.queue.next oldHead = none ∧
      s.completed.count node < s.exchanged.count node

/-- What the consumer's local variables say about the queue. -/
def ConsumerInv (s : QueueSys ι ν) : PopPc ν → Prop
  | .idle => True
  | .loadTail => True
  | .loadNext tail => tail = s.queue.tail
  | .skipStub next => s.queue.tail = .stub ∧ s.queue.next .stub = some next
  | .reloadNext tail => tail = s.queue.tail ∧ tail ≠ .stub
  | .take tail next => tail = s.queue.tail ∧ tail ≠ .stub ∧ s.queue.next tail = some next
  | .loadHead tail => tail = s.queue.tail ∧ tail ≠ .stub ∧ (tail = s.queue.head ∨ s.gapSeen)
  | .stubClear tail =>
    tail = s.queue.tail ∧ tail ≠ .stub ∧ .stub ∉ s.chain ∧ (tail = s.queue.head ∨ s.gapSeen)
  | .stubExchange tail =>
    tail = s.queue.tail ∧ tail ≠ .stub ∧ .stub ∉ s.chain ∧ s.queue.next .stub = none ∧
      (tail = s.queue.head ∨ s.gapSeen)
  | .stubLink tail oldHead =>
    tail = s.queue.tail ∧ tail ≠ .stub ∧ Adjacent s.chain oldHead .stub ∧
      s.queue.next oldHead = none ∧ (tail = oldHead ∨ s.gapSeen)
  | .lastNext tail =>
    tail = s.queue.tail ∧ tail ≠ .stub ∧ (s.queue.next tail ≠ none ∨ s.gapSeen)
  | .ret none => s.chain = [.stub] ∨ s.gapSeen
  | .ret (some node) =>
    ∃ n, node = .msg n ∧ n ∈ s.busy ∧ .msg n ∉ s.chain ∧ ∀ i, (s.producer i).node ≠ some n

/-- The invariant of the queue under all interleavings. -/
structure QueueInv (s : QueueSys ι ν) : Prop where
  /-- The chain starts at `tail`. -/
  tail : s.chain.head? = some s.queue.tail
  /-- The chain ends at `head`. -/
  head : s.chain.getLast? = some s.queue.head
  /-- No node is in the chain twice. -/
  nodup : s.chain.Nodup
  /-- Every node of the chain points to the next one, or will. -/
  links : ∀ a b, Adjacent s.chain a b →
    s.queue.next a = some b ∨ (s.queue.next a = none ∧ s.Pending a b)
  /-- Nothing is linked behind the last node. -/
  end_next : s.queue.next s.queue.head = none
  /-- The messages in the chain are in use. -/
  in_use : ∀ n, .msg n ∈ s.chain → n ∈ s.busy
  /-- No two producers push one node. -/
  distinct : ∀ i j n, (s.producer i).node = some n → (s.producer j).node = some n → i = j
  /-- The local variables of the producers are right. -/
  producer : ∀ i, s.ProducerInv (s.producer i)
  /-- The local variables of the consumer are right. -/
  consumer : s.ConsumerInv s.consumer
  /-- A push seen half done during the current pop is recorded. -/
  gap : s.consumer ≠ .idle → s.Gap → s.gapSeen
  /-- The nodes exchanged in are those returned, then those in the chain. -/
  order : s.exchanged.map .msg =
    s.popped ++ s.consumer.inHand ++ s.chain.filter (· ≠ .stub)
  /-- A push is completed after its exchange. -/
  completed : ∀ n, s.completed.count n ≤ s.exchanged.count n
  /-- The pushes completed before the current pop are among the completed ones. -/
  before : s.completedBefore <+: s.completed

omit [DecidableEq ι] in
/-- The invariant holds after `lockless_queue_init`. -/
theorem QueueInv.create (next : QueueNode ν → Option (QueueNode ν)) :
    QueueInv (create next : QueueSys ι ν) := by
  constructor <;>
    simp [QueueSys.create, LocklessQueue.init, ProducerInv, ConsumerInv, PushPc.node,
      PopPc.inHand]

section Congr

variable {s t : QueueSys ι ν}

omit [DecidableEq ι]

/-- What a producer knows is about the chain, the messages in use, its own message and one
`next`. -/
theorem ProducerInv.congr {pc : PushPc ν} (h : s.ProducerInv pc) (hchain : t.chain = s.chain)
    (hbusy : ∀ n ∈ s.busy, n ∈ t.busy)
    (hcount : ∀ a m, pc = .link a m → s.completed.count m < s.exchanged.count m →
      t.completed.count m < t.exchanged.count m)
    (hnext : ∀ a ∈ pc.known, t.queue.next a = s.queue.next a) : t.ProducerInv pc := by
  cases pc with
  | idle => trivial
  | clear node => exact ⟨hbusy _ h.1, hchain ▸ h.2⟩
  | exchange node => exact ⟨hbusy _ h.1, hchain ▸ h.2.1, (hnext _ rfl).trans h.2.2⟩
  | link oldHead node => exact ⟨hchain ▸ h.1, (hnext _ rfl).trans h.2.1, hcount _ _ rfl h.2.2⟩

omit [DecidableEq ν] in
/-- What the consumer knows while producers store to `next` fields of other nodes. The tail may get
a successor, but it does not lose one. -/
theorem ConsumerInv.congr {pc : PopPc ν} (h : s.ConsumerInv pc)
    (htail : t.queue.tail = s.queue.tail) (hhead : t.queue.head = s.queue.head)
    (hchain : t.chain = s.chain) (hgap : t.gapSeen = s.gapSeen) (hbusy : ∀ n ∈ s.busy, n ∈ t.busy)
    (hpush : ∀ n ∈ s.busy, (∀ i, (s.producer i).node ≠ some n) → ∀ i, (t.producer i).node ≠ some n)
    (hnext : ∀ a ∈ pc.known, t.queue.next a = s.queue.next a)
    (hlast : s.queue.next s.queue.tail ≠ none → t.queue.next s.queue.tail ≠ none) :
    t.ConsumerInv pc := by
  cases pc with
  | idle => trivial
  | loadTail => trivial
  | loadNext tail => exact h.trans htail.symm
  | skipStub next => exact ⟨htail.trans h.1, (hnext _ rfl).trans h.2⟩
  | reloadNext tail => exact ⟨h.1.trans htail.symm, h.2⟩
  | take tail next => exact ⟨h.1.trans htail.symm, h.2.1, (hnext _ rfl).trans h.2.2⟩
  | loadHead tail =>
    simpa only [ConsumerInv, htail, hhead, hgap] using h
  | stubClear tail =>
    simpa only [ConsumerInv, htail, hhead, hchain, hgap] using h
  | stubExchange tail =>
    simpa only [ConsumerInv, htail, hhead, hchain, hgap, hnext _ rfl] using h
  | stubLink tail oldHead =>
    simpa only [ConsumerInv, htail, hchain, hgap, hnext _ rfl] using h
  | lastNext tail =>
    obtain ⟨rfl, hne, hsome⟩ := h
    exact ⟨htail.symm, hne, hsome.imp hlast fun hseen => hgap ▸ hseen⟩
  | ret res =>
    cases res with
    | none => exact h.imp (fun hone => hchain.trans hone) fun hseen => hgap ▸ hseen
    | some node =>
      obtain ⟨n, rfl, hn, hout, hfree⟩ := h
      exact ⟨n, rfl, hbusy n hn, hchain ▸ hout, hpush n hn hfree⟩

end Congr

section Facts

variable {s : QueueSys ι ν} (h : QueueInv s)

include h

omit [DecidableEq ι]

/-- The first node is in the chain. -/
theorem QueueInv.tail_mem : s.queue.tail ∈ s.chain := mem_of_head? h.tail

/-- The last node is in the chain. -/
theorem QueueInv.head_mem : s.queue.head ∈ s.chain := mem_of_getLast? h.head

/-- The successor of the first node is the second node of the chain. -/
theorem QueueInv.chain_eq_of_next {next : QueueNode ν}
    (hnext : s.queue.next s.queue.tail = some next) :
    ∃ rest, s.chain = s.queue.tail :: next :: rest := by
  rcases head_eq_singleton_or_adjacent h.tail with hone | ⟨b, hb⟩
  · have hhead : s.queue.head = s.queue.tail := by
      have hlast := h.head
      rw [hone] at hlast
      exact (Option.some.inj hlast).symm
    rw [← hhead, h.end_next] at hnext
    cases hnext
  · rcases h.links _ _ hb with hb' | ⟨hnone, -⟩
    · rw [hnext] at hb'
      cases hb'
      exact hb.eq_cons_cons h.nodup h.tail
    · rw [hnext] at hnone
      cases hnone

/-- While the consumer is not linking the stub itself, what is still to be linked is so by a
producer. -/
theorem QueueInv.links_of_not_links (hlinks : ∀ a, ¬ s.consumer.Links a) {a b : QueueNode ν}
    (hab : Adjacent s.chain a b) : s.queue.next a = some b ∨
      s.queue.next a = none ∧ ∃ i node, s.producer i = .link a node ∧ b = .msg node := by
  rcases h.links a b hab with hb | ⟨hnone, hpush | ⟨hl, -⟩⟩
  · exact .inl hb
  · exact .inr ⟨hnone, hpush⟩
  · exact absurd hl (hlinks a)

/-- When the first node has no successor, it is the only one, or some push is half done. The
consumer is not linking the stub itself. -/
theorem QueueInv.chain_eq_or_gap (hnext : s.queue.next s.queue.tail = none)
    (hlinks : ∀ a, ¬ s.consumer.Links a) : s.chain = [s.queue.tail] ∨ s.Gap := by
  rcases head_eq_singleton_or_adjacent h.tail with hone | ⟨b, hb⟩
  · exact .inl hone
  · rcases h.links_of_not_links hlinks hb with hb' | ⟨-, i, node, hi, -⟩
    · rw [hnext] at hb'
      cases hb'
    · exact .inr ⟨i, _, node, hi⟩

/-- When the first node has no successor, it is the last one, or some push was half done during
the current pop. -/
theorem QueueInv.chain_eq_or_gapSeen (hnext : s.queue.next s.queue.tail = none)
    (hidle : s.consumer ≠ .idle) (hlinks : ∀ a, ¬ s.consumer.Links a) :
    s.chain = [s.queue.tail] ∨ s.gapSeen :=
  (h.chain_eq_or_gap hnext hlinks).imp_right (h.gap hidle)

/-- A chain that starts and ends at one node is that node. -/
theorem QueueInv.chain_eq_singleton (heq : s.queue.tail = s.queue.head) :
    s.chain = [s.queue.tail] := by
  rcases head_eq_singleton_or_adjacent h.tail with hone | ⟨b, hb⟩
  · exact hone
  · exact absurd (heq ▸ h.head) (hb.getLast?_ne h.nodup)

/-- The first node is not being pushed. -/
theorem QueueInv.tail_not_pushed {n : ν} (hn : s.queue.tail = .msg n) (i : ι) :
    (s.producer i).node ≠ some n := by
  intro hnode
  have hmem := h.tail_mem
  have hinv := h.producer i
  cases hpc : s.producer i with
  | idle => simp [hpc, PushPc.node] at hnode
  | clear node =>
    simp only [hpc, PushPc.node, Option.some.injEq] at hnode
    rw [hpc] at hinv
    exact hinv.2 (hnode ▸ hn ▸ hmem)
  | exchange node =>
    simp only [hpc, PushPc.node, Option.some.injEq] at hnode
    rw [hpc] at hinv
    exact hinv.2.1 (hnode ▸ hn ▸ hmem)
  | link oldHead node =>
    simp only [hpc, PushPc.node, Option.some.injEq] at hnode
    rw [hpc] at hinv
    obtain ⟨hadj, -⟩ := hinv
    rw [hnode, ← hn] at hadj
    exact hadj.right_ne_head h.nodup h.tail

/-- The node of every producer is in use. -/
theorem QueueInv.node_busy {i : ι} {n : ν} (hnode : (s.producer i).node = some n) :
    n ∈ s.busy := by
  have hinv := h.producer i
  cases hpc : s.producer i with
  | idle => simp [hpc, PushPc.node] at hnode
  | clear node =>
    simp only [hpc, PushPc.node, Option.some.injEq] at hnode
    rw [hpc] at hinv
    exact hnode ▸ hinv.1
  | exchange node =>
    simp only [hpc, PushPc.node, Option.some.injEq] at hnode
    rw [hpc] at hinv
    exact hnode ▸ hinv.1
  | link oldHead node =>
    simp only [hpc, PushPc.node, Option.some.injEq] at hnode
    rw [hpc] at hinv
    exact hnode ▸ h.in_use _ hinv.1.mem_right

/-- What a producer knows is not the node that gets the successor `b`, which another one pushes or
the consumer. -/
theorem QueueInv.known_ne {oldHead b : QueueNode ν} (hadj : Adjacent s.chain oldHead b) {i : ι}
    (hother : ∀ a m, s.producer i = .link a m → b ≠ .msg m) :
    ∀ a ∈ (s.producer i).known, a ≠ oldHead := by
  have hinv := h.producer i
  cases hpc : s.producer i with
  | exchange m =>
    -- what is being pushed is not in the chain yet
    rw [hpc] at hinv
    rintro a ⟨⟩ rfl
    exact hinv.2.1 hadj.mem_left
  | link old m =>
    -- the old heads of two pushes have different successors
    rw [hpc] at hinv
    rintro a ⟨⟩ rfl
    exact hother _ m hpc (hadj.right_unique h.nodup hinv.1)
  | _ => rintro a ⟨⟩

/-- Nor does the consumer know the old head of a push. -/
theorem QueueInv.consumer_known_ne {oldHead : QueueNode ν} {node : ν}
    (hadj : Adjacent s.chain oldHead (.msg node)) (hnone : s.queue.next oldHead = none) :
    ∀ a ∈ s.consumer.known, a ≠ oldHead := by
  have hcons := h.consumer
  cases hc : s.consumer with
  | skipStub next =>
    rw [hc] at hcons
    rintro a ⟨⟩ rfl
    rw [hcons.2] at hnone
    cases hnone
  | take tail next =>
    rw [hc] at hcons
    rintro a ⟨⟩ rfl
    rw [hcons.2.2] at hnone
    cases hnone
  | stubExchange tail =>
    -- the stub is not in the chain
    rw [hc] at hcons
    rintro a ⟨⟩ rfl
    exact hcons.2.2.1 hadj.mem_left
  | stubLink tail old =>
    rw [hc] at hcons
    rintro a ⟨⟩ rfl
    cases hcons.2.2.1.right_unique h.nodup hadj
  | _ => rintro a ⟨⟩

/-- A node that gets a successor is not the last one. -/
theorem QueueInv.end_next_setNext {oldHead b : QueueNode ν} (hadj : Adjacent s.chain oldHead b) :
    (s.queue.setNext oldHead (some b)).next s.queue.head = none := by
  refine (s.queue.next_setNext_of_ne (fun heq => ?_) _).trans h.end_next
  exact hadj.getLast?_ne h.nodup (heq ▸ h.head)

end Facts

section Consumer

variable {s : QueueSys ι ν} (h : QueueInv s)

include h

omit [DecidableEq ι]

/-- A step of the consumer that only loads keeps the invariant. -/
theorem QueueInv.load (pc : PopPc ν) (hidle : s.consumer ≠ .idle)
    (hlinks : ∀ a, ¬ s.consumer.Links a) (hlinks' : ∀ a, ¬ pc.Links a)
    (hhand : pc.inHand = s.consumer.inHand) (hpc : s.ConsumerInv pc) :
    QueueInv { s with consumer := pc } where
  tail := h.tail
  head := h.head
  nodup := h.nodup
  links _ _ hab := (h.links_of_not_links hlinks hab).imp_right (And.imp_right .inl)
  end_next := h.end_next
  in_use := h.in_use
  distinct := h.distinct
  producer := h.producer
  consumer := by
    cases pc <;> exact hpc
  gap _ := h.gap hidle
  order := by
    rw [hhand]
    exact h.order
  completed := h.completed
  before := h.before

/-- The start of a pop keeps the invariant. -/
theorem QueueInv.pop (hidle : s.consumer = .idle) :
    QueueInv { s with
      consumer := .loadTail
      completedBefore := s.completed
      gapSeen := s.Gap } where
  tail := h.tail
  head := h.head
  nodup := h.nodup
  links _ _ hab :=
    (h.links_of_not_links (fun a => by simp [hidle, PopPc.Links]) hab).imp_right
      (And.imp_right .inl)
  end_next := h.end_next
  in_use := h.in_use
  distinct := h.distinct
  producer := h.producer
  consumer := trivial
  gap _ hgap := hgap
  order := by
    have horder := h.order
    rw [hidle] at horder
    exact horder
  completed := h.completed
  before := prefix_refl _

/-- A message taken out of the front of the chain is returned to the caller of pop. -/
theorem QueueInv.ret {node : QueueNode ν} (hpc : s.consumer = .ret (some node)) :
    QueueInv { s with
      consumer := .idle
      busy := s.busy.filter fun n => node ≠ .msg n
      popped := s.popped ++ [node] } := by
  have hcons := h.consumer
  rw [hpc] at hcons
  obtain ⟨n, rfl, hbusy, hchain, hpush⟩ := hcons
  -- every other message in use stays in use
  have hkeep : ∀ m ∈ s.busy, m ≠ n →
      m ∈ s.busy.filter fun m => (.msg n : QueueNode ν) ≠ .msg m := by
    intro m hm hne
    rw [mem_filter]
    exact ⟨hm, by simpa using fun heq => hne heq.symm⟩
  constructor
  case tail => exact h.tail
  case head => exact h.head
  case nodup => exact h.nodup
  case links =>
    intro a b hab
    exact (h.links_of_not_links (fun a => by simp [hpc, PopPc.Links]) hab).imp_right
      (And.imp_right .inl)
  case end_next => exact h.end_next
  case in_use =>
    intro m hm
    exact hkeep m (h.in_use m hm) fun heq => hchain (heq ▸ hm)
  case distinct => exact h.distinct
  case producer =>
    intro i
    have hinv := h.producer i
    have hne := hpush i
    cases hi : s.producer i with
    | idle => trivial
    | clear m =>
      rw [hi] at hinv hne
      exact ⟨hkeep m hinv.1 fun heq => hne (congrArg some heq), hinv.2⟩
    | exchange m =>
      rw [hi] at hinv hne
      exact ⟨hkeep m hinv.1 fun heq => hne (congrArg some heq), hinv.2⟩
    | link oldHead m =>
      rw [hi] at hinv
      exact hinv
  case consumer => trivial
  case gap => exact fun hidle => absurd rfl hidle
  case order =>
    have horder := h.order
    rw [hpc] at horder
    simpa [PopPc.inHand] using horder
  case completed => exact h.completed
  case before => exact h.before

/-- Moving `tail` to its successor keeps the invariant, the old first node being the stub or
going into the hands of the consumer. -/
theorem QueueInv.advance {next : QueueNode ν} {pc : PopPc ν} (hidle : s.consumer ≠ .idle)
    (hnext : s.queue.next s.queue.tail = some next) (hlinks : ∀ a, ¬ s.consumer.Links a)
    (hpc : ConsumerInv
      { s with queue := { s.queue with tail := next }, chain := s.chain.tail } pc)
    (hhand : pc.inHand = s.consumer.inHand ++ [s.queue.tail].filter (· ≠ .stub)) :
    QueueInv { s with
      queue := { s.queue with tail := next }
      consumer := pc
      chain := s.chain.tail } := by
  -- the successor is the second node of the chain
  obtain ⟨rest, hchain⟩ := h.chain_eq_of_next hnext
  have hmem : ∀ a, a ∈ s.chain.tail → a ∈ s.chain := fun a => mem_of_mem_tail
  constructor
  -- the chain loses its first node and nothing else changes its end
  case tail => simp [hchain]
  case head =>
    have hhead := h.head
    rw [hchain, getLast?_cons_cons] at hhead
    simpa [hchain] using hhead
  case nodup => exact h.nodup.tail
  case links =>
    intro a b hab
    exact (h.links_of_not_links hlinks (adjacent_of_tail hab)).imp_right (And.imp_right .inl)
  case end_next => exact h.end_next
  case in_use => exact fun n hn => h.in_use n (hmem _ hn)
  -- the fields of the producers are not written
  case distinct => exact h.distinct
  case producer =>
    intro i
    have hinv := h.producer i
    cases hi : s.producer i with
    | idle => trivial
    | clear m =>
      rw [hi] at hinv
      exact ⟨hinv.1, fun hm => hinv.2 (hmem _ hm)⟩
    | exchange m =>
      rw [hi] at hinv
      exact ⟨hinv.1, fun hm => hinv.2.1 (hmem _ hm), hinv.2.2⟩
    | link oldHead m =>
      -- the node that waits for a link is not the first one, which has a successor
      rw [hi] at hinv
      obtain ⟨hadj, hnone, hcount⟩ := hinv
      refine ⟨?_, hnone, hcount⟩
      rw [hchain, adjacent_cons] at hadj
      rcases hadj with ⟨rfl, -⟩ | hadj
      · rw [hnext] at hnone
        cases hnone
      · rw [hchain]
        exact hadj
  case consumer =>
    cases pc <;> exact hpc
  case gap => exact fun _ => h.gap hidle
  -- the first node is popped, or it is the stub, which is in no order
  case order =>
    have horder := h.order
    rw [hchain, ← singleton_append, filter_append, ← append_assoc,
      append_assoc s.popped, ← hhand] at horder
    rw [hchain]
    exact horder
  case completed => exact h.completed
  case before => exact h.before

/-- The store of `NULL` to the `next` of the stub, which is outside the chain. -/
theorem QueueInv.stubClear {tail : QueueNode ν} (hpc : s.consumer = .stubClear tail) :
    QueueInv { s with
      queue := s.queue.setNext .stub none
      consumer := .stubExchange tail } := by
  have hcons := h.consumer
  rw [hpc] at hcons
  obtain ⟨htail, hne, hstub, hhead⟩ := hcons
  -- the stub is not in the chain, so no link of the chain is written
  have hkeep : ∀ a ∈ s.chain, Function.update s.queue.next .stub none a = s.queue.next a := by
    intro a ha
    rw [Function.update_of_ne]
    exact fun heq => hstub (heq ▸ ha)
  constructor
  case tail => exact h.tail
  case head => exact h.head
  case nodup => exact h.nodup
  case links =>
    intro a b hab
    simp only [LocklessQueue.setNext, hkeep a hab.mem_left]
    exact (h.links_of_not_links (fun a => by simp [hpc, PopPc.Links]) hab).imp_right
      (And.imp_right .inl)
  case end_next =>
    simp only [LocklessQueue.setNext]
    rw [hkeep _ h.head_mem]
    exact h.end_next
  case in_use => exact h.in_use
  case distinct => exact h.distinct
  case producer =>
    intro i
    have hinv := h.producer i
    -- nor is a node that a producer is about to write
    refine hinv.congr rfl (fun _ => id) (fun _ _ _ => id) ?_
    cases hi : s.producer i with
    | exchange m =>
      rintro a ⟨⟩
      refine s.queue.next_setNext_of_ne ?_ _
      exact fun heq => by cases heq
    | link oldHead m =>
      rw [hi] at hinv
      rintro a ⟨⟩
      exact hkeep _ hinv.1.mem_left
    | _ => rintro a ⟨⟩
  case consumer =>
    refine ⟨htail, hne, hstub, ?_, hhead⟩
    simp [LocklessQueue.setNext]
  case gap => exact fun _ => h.gap (by simp [hpc])
  case order =>
    have horder := h.order
    rw [hpc] at horder
    exact horder
  case completed => exact h.completed
  case before => exact h.before

/-- The exchange of `head` with the stub puts the stub at the end of the chain. -/
theorem QueueInv.stubExchange {tail : QueueNode ν} (hpc : s.consumer = .stubExchange tail) :
    QueueInv { s with
      queue := { s.queue with head := .stub }
      consumer := .stubLink tail s.queue.head
      chain := s.chain ++ [.stub] } := by
  have hcons := h.consumer
  rw [hpc] at hcons
  obtain ⟨htail, hne, hstub, hnone, hhead⟩ := hcons
  -- the consumer links nothing at this point
  have hnotlinks : ∀ a, ¬ s.consumer.Links a := fun a => by simp [hpc, PopPc.Links]
  constructor
  case tail => rw [head?_append, h.tail, Option.some_or]
  case head => simp
  case nodup =>
    rw [nodup_append]
    exact ⟨h.nodup, by simp, fun a ha b hb heq => hstub (by simp_all)⟩
  case links =>
    -- the new link is the one that the consumer is about to store
    intro a b hab
    rw [adjacent_concat] at hab
    rcases hab with hab | ⟨hlast, rfl⟩
    · exact (h.links_of_not_links hnotlinks hab).imp_right (And.imp_right .inl)
    · rw [h.head, Option.some.injEq] at hlast
      subst hlast
      exact .inr ⟨h.end_next, .inr ⟨rfl, rfl⟩⟩
  case end_next => exact hnone
  case in_use =>
    intro n hn
    rw [mem_append, mem_singleton] at hn
    exact h.in_use n (hn.resolve_right (by simp))
  case distinct => exact h.distinct
  case producer =>
    intro i
    have hinv := h.producer i
    -- a producer never has the stub
    cases hi : s.producer i with
    | idle => trivial
    | clear m =>
      rw [hi] at hinv
      exact ⟨hinv.1, by simpa using hinv.2⟩
    | exchange m =>
      rw [hi] at hinv
      exact ⟨hinv.1, by simpa using hinv.2.1, hinv.2.2⟩
    | link oldHead m =>
      -- a link that a producer owes is still in the chain
      rw [hi] at hinv
      exact ⟨adjacent_concat.2 (.inl hinv.1), hinv.2⟩
  case consumer =>
    exact ⟨htail, hne, adjacent_concat.2 (.inr ⟨h.head, rfl⟩), h.end_next, hhead⟩
  case gap => exact fun _ => h.gap (by simp [hpc])
  case order =>
    have horder := h.order
    rw [hpc] at horder
    simpa [PopPc.inHand] using horder
  case completed => exact h.completed
  case before => exact h.before

/-- The store of the stub to `old_head->next`. -/
theorem QueueInv.stubLink {tail oldHead : QueueNode ν}
    (hpc : s.consumer = .stubLink tail oldHead) :
    QueueInv { s with
      queue := s.queue.setNext oldHead (some .stub)
      consumer := .lastNext tail } := by
  have hcons := h.consumer
  rw [hpc] at hcons
  obtain ⟨htail, hne, hadj, hnone, hhead⟩ := hcons
  constructor
  case tail => exact h.tail
  case head => exact h.head
  case nodup => exact h.nodup
  case links =>
    intro a b hab
    simp only [LocklessQueue.setNext]
    -- the link that was missing is there now
    by_cases ha : a = oldHead
    · subst ha
      left
      rw [Function.update_self, hab.right_unique h.nodup hadj]
    · rw [Function.update_of_ne ha]
      rcases h.links a b hab with hb | ⟨hnone, hpush | ⟨hl, -⟩⟩
      · -- all others are as before, and it is not the consumer's any more
        exact .inl hb
      · exact .inr ⟨hnone, .inl hpush⟩
      · rw [hpc] at hl
        exact absurd hl.symm ha
  case end_next => exact h.end_next_setNext hadj
  case in_use => exact h.in_use
  case distinct => exact h.distinct
  case producer =>
    -- a producer writes another node, since this one waits for the consumer
    intro i
    refine (h.producer i).congr rfl (fun _ => id) (fun _ _ _ => id) fun a ha => ?_
    exact s.queue.next_setNext_of_ne (h.known_ne hadj (fun _ _ _ heq => by cases heq) a ha) _
  case consumer =>
    refine ⟨htail, hne, hhead.imp_left fun heq => ?_⟩
    simp [LocklessQueue.setNext, heq]
  case gap => exact fun _ => h.gap (by simp [hpc])
  case order =>
    have horder := h.order
    rw [hpc] at horder
    exact horder
  case completed => exact h.completed
  case before => exact h.before

end Consumer

section Producer

variable {s : QueueSys ι ν} (h : QueueInv s) {i : ι} {node : ν}

include h

/-- Only the producer that is given a new program counter changes. -/
private theorem distinct_update {pc : PushPc ν} (hpc : ∀ n, pc.node = some n →
      (s.producer i).node = some n ∨ n ∉ s.busy) (j k : ι) (n : ν)
    (hj : (Function.update s.producer i pc j).node = some n)
    (hk : (Function.update s.producer i pc k).node = some n) : j = k := by
  by_cases hji : j = i <;> by_cases hki : k = i
  · exact hji.trans hki.symm
  · subst hji
    rw [Function.update_self] at hj
    rw [Function.update_of_ne hki] at hk
    rcases hpc n hj with hn | hn
    · exact h.distinct _ _ n hn hk
    · exact absurd (h.node_busy hk) hn
  · subst hki
    rw [Function.update_of_ne hji] at hj
    rw [Function.update_self] at hk
    rcases hpc n hk with hn | hn
    · exact h.distinct _ _ n hj hn
    · exact absurd (h.node_busy hj) hn
  · rw [Function.update_of_ne hji] at hj
    rw [Function.update_of_ne hki] at hk
    exact h.distinct _ _ n hj hk

/-- What the invariant says of a producer after another one, `i`, took a step. -/
private theorem producer_update {t : QueueSys ι ν} {pc : PushPc ν}
    (ht : t.producer = Function.update s.producer i pc) (hself : t.ProducerInv pc)
    (hother : ∀ j, j ≠ i → s.ProducerInv (s.producer j) → t.ProducerInv (s.producer j))
    (j : ι) : t.ProducerInv (t.producer j) := by
  rw [ht]
  by_cases hj : j = i
  · subst hj
    rw [Function.update_self]
    exact hself
  · rw [Function.update_of_ne hj]
    exact hother j hj (h.producer j)

omit h [DecidableEq ν] in
/-- A message that no producer pushes, nor the one that takes a step. -/
private theorem node_update {n : ν} {pc : PushPc ν} (hpush : ∀ j, (s.producer j).node ≠ some n)
    (hself : pc.node ≠ some n) (j : ι) :
    (Function.update s.producer i pc j).node ≠ some n := by
  by_cases hj : j = i
  · subst hj
    rw [Function.update_self]
    exact hself
  · rw [Function.update_of_ne hj]
    exact hpush j

omit h [DecidableEq ν] in
/-- A producer that neither was nor is between its two stores is no half done push. -/
private theorem update_eq_link (pc : PushPc ν) (hold : ∀ a m, s.producer i ≠ .link a m)
    (hnew : ∀ a m, pc ≠ .link a m) (j : ι) (a : QueueNode ν) (m : ν) :
    Function.update s.producer i pc j = .link a m ↔ s.producer j = .link a m := by
  by_cases hj : j = i
  · subst hj
    rw [Function.update_self]
    exact ⟨fun h => absurd h (hnew a m), fun h => absurd h (hold a m)⟩
  · rw [Function.update_of_ne hj]

/-- A call of push with a node that is not in use. -/
theorem QueueInv.push (hpc : s.producer i = .idle) (hbusy : node ∉ s.busy) :
    QueueInv { s with
      producer := Function.update s.producer i (.clear node)
      busy := node :: s.busy } := by
  have hnotlink := update_eq_link (s := s) (i := i) (.clear node) (by simp [hpc]) (by simp)
  constructor
  case tail => exact h.tail
  case head => exact h.head
  case nodup => exact h.nodup
  case links =>
    intro a b hab
    refine (h.links a b hab).imp_right (And.imp_right (Or.imp_left ?_))
    rintro ⟨j, m, hj, rfl⟩
    exact ⟨j, m, (hnotlink j a m).2 hj, rfl⟩
  case end_next => exact h.end_next
  case in_use => exact fun n hn => mem_cons_of_mem _ (h.in_use n hn)
  case distinct =>
    refine distinct_update h fun n hn => .inr ?_
    rw [PushPc.node, Option.some.injEq] at hn
    exact hn ▸ hbusy
  case producer =>
    refine producer_update h rfl ⟨mem_cons_self, fun hm => hbusy (h.in_use _ hm)⟩ ?_
    exact fun j _ hinv => hinv.congr rfl (fun _ => mem_cons_of_mem _) (fun _ _ _ => id)
      fun _ _ => rfl
  case consumer =>
    refine h.consumer.congr rfl rfl rfl rfl (fun _ => mem_cons_of_mem _) (fun n hn hpush => ?_)
      (fun _ _ => rfl) id
    -- a message in use is not the one that is pushed now
    refine node_update hpush fun heq => hbusy ?_
    rw [PushPc.node, Option.some.injEq] at heq
    exact heq ▸ hn
  case gap =>
    rintro hidle ⟨j, a, m, hj⟩
    exact h.gap hidle ⟨j, a, m, (hnotlink j a m).1 hj⟩
  case order => exact h.order
  case completed => exact h.completed
  case before => exact h.before

/-- The store of `NULL` to `node->next` before the exchange. -/
theorem QueueInv.clear (hpc : s.producer i = .clear node) :
    QueueInv { s with
      queue := s.queue.setNext (.msg node) none
      producer := Function.update s.producer i (.exchange node) } := by
  have hself := h.producer i
  rw [hpc] at hself
  obtain ⟨hbusy, hchain⟩ := hself
  -- the message is not in the chain, so no link of the chain is written
  have hkeep : ∀ a ∈ s.chain,
      Function.update s.queue.next (.msg node) none a = s.queue.next a := by
    intro a ha
    rw [Function.update_of_ne]
    exact fun heq => hchain (heq ▸ ha)
  have hnotlink := update_eq_link (s := s) (i := i) (.exchange node) (by simp [hpc]) (by simp)
  constructor
  case tail => exact h.tail
  case head => exact h.head
  case nodup => exact h.nodup
  case links =>
    intro a b hab
    simp only [LocklessQueue.setNext, hkeep a hab.mem_left]
    refine (h.links a b hab).imp_right (And.imp_right (Or.imp_left ?_))
    rintro ⟨j, m, hj, rfl⟩
    exact ⟨j, m, (hnotlink j a m).2 hj, rfl⟩
  case end_next =>
    simp only [LocklessQueue.setNext]
    rw [hkeep _ h.head_mem]
    exact h.end_next
  case in_use => exact h.in_use
  case distinct =>
    refine distinct_update h fun n hn => .inl ?_
    rw [hpc]
    exact hn
  case producer =>
    refine producer_update h rfl ⟨hbusy, hchain, by simp [LocklessQueue.setNext]⟩ ?_
    intro j hji hinv
    refine hinv.congr rfl (fun _ => id) (fun _ _ _ => id) ?_
    cases hj : s.producer j with
    | exchange m =>
      -- another producer pushes another node
      have hne : m ≠ node := by
        rintro rfl
        exact hji (h.distinct j i m (by rw [hj, PushPc.node]) (by rw [hpc, PushPc.node]))
      rintro a ⟨⟩
      exact Function.update_of_ne (by simpa using hne) ..
    | link old m =>
      rw [hj] at hinv
      rintro a ⟨⟩
      exact hkeep _ hinv.1.mem_left
    | _ => rintro a ⟨⟩
  case consumer =>
    have hcons := h.consumer
    refine hcons.congr rfl rfl rfl rfl (fun _ => id) (fun n _ hpush => ?_) ?_
      (hkeep _ h.tail_mem).trans_ne
    · refine node_update hpush ?_
      -- the consumer has handed out another message
      have hself := hpush i
      rwa [hpc] at hself
    · -- the stub is no message, and the others are in the chain
      cases hc : s.consumer with
      | skipStub next =>
        rintro a ⟨⟩
        refine s.queue.next_setNext_of_ne ?_ _
        exact fun heq => by cases heq
      | take tail next =>
        rw [hc] at hcons
        obtain ⟨rfl, -⟩ := hcons
        rintro a ⟨⟩
        exact hkeep _ h.tail_mem
      | stubExchange tail =>
        rintro a ⟨⟩
        refine s.queue.next_setNext_of_ne ?_ _
        exact fun heq => by cases heq
      | stubLink tail oldHead =>
        rw [hc] at hcons
        rintro a ⟨⟩
        exact hkeep _ hcons.2.2.1.mem_left
      | _ => rintro a ⟨⟩
  case gap =>
    rintro hidle ⟨j, a, m, hj⟩
    exact h.gap hidle ⟨j, a, m, (hnotlink j a m).1 hj⟩
  case order => exact h.order
  case completed => exact h.completed
  case before => exact h.before

/-- The exchange of `head` with a message puts the message at the end of the chain. -/
theorem QueueInv.exchange (hpc : s.producer i = .exchange node) :
    QueueInv { s with
      queue := { s.queue with head := .msg node }
      producer := Function.update s.producer i (.link s.queue.head node)
      exchanged := s.exchanged ++ [node]
      chain := s.chain ++ [.msg node]
      gapSeen := True } := by
  have hself := h.producer i
  rw [hpc] at hself
  obtain ⟨hbusy, hchain, hnone⟩ := hself
  have hnode : (s.producer i).node = some node := by rw [hpc, PushPc.node]
  have hcount : ∀ n, s.exchanged.count n ≤ (s.exchanged ++ [node]).count n :=
    fun n => (sublist_append_left _ _).count_le n
  -- a producer that owes a link goes on owing it
  have hlink : ∀ j a m, s.producer j = .link a m →
      Function.update s.producer i (.link s.queue.head node) j = .link a m := by
    intro j a m hj
    rw [Function.update_of_ne]
    · exact hj
    · rintro rfl
      simp [hpc] at hj
  -- another producer pushes another node
  have hother : ∀ j n, j ≠ i → (s.producer j).node = some n → n ≠ node := by
    rintro j n hj hn rfl
    exact hj (h.distinct _ _ n hn hnode)
  constructor
  case tail => rw [head?_append, h.tail, Option.some_or]
  case head => simp
  case nodup =>
    rw [nodup_append]
    exact ⟨h.nodup, by simp, fun a ha b hb heq => hchain (by simp_all)⟩
  case links =>
    intro a b hab
    -- the new pair is the old end and the message
    rw [adjacent_concat] at hab
    rcases hab with hab | ⟨hlast, rfl⟩
    · refine (h.links a b hab).imp_right (And.imp_right (Or.imp_left ?_))
      rintro ⟨j, m, hj, rfl⟩
      exact ⟨j, m, hlink j a m hj, rfl⟩
    · rw [h.head, Option.some.injEq] at hlast
      subst hlast
      -- its link is missing, and this producer owes it
      exact .inr ⟨h.end_next, .inl ⟨i, node, by simp, rfl⟩⟩
  case end_next => exact hnone
  case in_use =>
    intro n hn
    rw [mem_append, mem_singleton, QueueNode.msg.injEq] at hn
    rcases hn with hn | rfl
    · exact h.in_use n hn
    · exact hbusy
  case distinct =>
    refine distinct_update h fun n hn => .inl ?_
    rw [hnode]
    exact hn
  case producer =>
    refine producer_update h rfl ⟨adjacent_concat.2 (.inr ⟨h.head, rfl⟩), h.end_next, ?_⟩ ?_
    · -- the message was exchanged once more often than it was completed
      have hle := h.completed node
      simp only [count_append, count_singleton_self]
      omega
    intro j hji hinv
    have hne := hother j
    cases hj : s.producer j with
    | idle => trivial
    | clear m =>
      rw [hj] at hinv hne
      have hm : m ≠ node := hne m hji rfl
      exact ⟨hinv.1, by simpa [hm] using hinv.2⟩
    | exchange m =>
      rw [hj] at hinv hne
      have hm : m ≠ node := hne m hji rfl
      exact ⟨hinv.1, by simpa [hm] using hinv.2.1, hinv.2.2⟩
    | link old m =>
      rw [hj] at hinv
      exact ⟨adjacent_concat.2 (.inl hinv.1), hinv.2.1, Nat.lt_of_lt_of_le hinv.2.2 (hcount m)⟩
  case consumer =>
    have hcons := h.consumer
    cases hc : s.consumer with
    | loadHead tail =>
      rw [hc] at hcons
      exact ⟨hcons.1, hcons.2.1, .inr trivial⟩
    | stubClear tail =>
      rw [hc] at hcons
      exact ⟨hcons.1, hcons.2.1, by simpa using hcons.2.2.1, .inr trivial⟩
    | stubExchange tail =>
      rw [hc] at hcons
      exact ⟨hcons.1, hcons.2.1, by simpa using hcons.2.2.1, hcons.2.2.2.1, .inr trivial⟩
    | stubLink tail oldHead =>
      rw [hc] at hcons
      exact ⟨hcons.1, hcons.2.1, adjacent_concat.2 (.inl hcons.2.2.1), hcons.2.2.2.1,
        .inr trivial⟩
    | lastNext tail =>
      rw [hc] at hcons
      exact ⟨hcons.1, hcons.2.1, .inr trivial⟩
    | ret res =>
      -- a message handed out is not the one that is pushed now
      rw [hc] at hcons
      cases res with
      | none => exact .inr trivial
      | some t =>
        obtain ⟨n, rfl, hn, hout, hpush⟩ := hcons
        have hnn : n ≠ node := fun heq => hpush i (heq ▸ hnode)
        refine ⟨n, rfl, hn, by simpa [hnn] using hout, node_update hpush ?_⟩
        simpa [PushPc.node] using hnn.symm
    | _ =>
      rw [hc] at hcons
      exact hcons
  case gap => exact fun _ _ => trivial
  case order =>
    have horder := h.order
    -- the new message is the youngest
    simp only [map_append, map_cons, map_nil, filter_append, horder]
    simp
  case completed => exact fun n => Nat.le_trans (h.completed n) (hcount n)
  case before => exact h.before

/-- The store of a message to `old_head->next` completes its push. -/
theorem QueueInv.link {oldHead : QueueNode ν} (hpc : s.producer i = .link oldHead node) :
    QueueInv { s with
      queue := s.queue.setNext oldHead (some (.msg node))
      producer := Function.update s.producer i .idle
      completed := s.completed ++ [node] } := by
  have hself := h.producer i
  rw [hpc] at hself
  obtain ⟨hadj, hnone, hcount⟩ := hself
  have hnode : (s.producer i).node = some node := by rw [hpc, PushPc.node]
  have hother : ∀ j n, j ≠ i → (s.producer j).node = some n → n ≠ node := by
    rintro j n hj hn rfl
    exact hj (h.distinct _ _ n hn hnode)
  constructor
  case tail => exact h.tail
  case head => exact h.head
  case nodup => exact h.nodup
  case links =>
    intro a b hab
    simp only [LocklessQueue.setNext]
    -- the link that was missing is there now
    by_cases ha : a = oldHead
    · subst ha
      left
      rw [Function.update_self, hab.right_unique h.nodup hadj]
    · -- the others are missing as before, by another producer or by the consumer
      rw [Function.update_of_ne ha]
      refine (h.links a b hab).imp_right (And.imp_right (Or.imp_left ?_))
      rintro ⟨j, m, hj, rfl⟩
      refine ⟨j, m, ?_, rfl⟩
      simp only
      rw [Function.update_of_ne]
      · exact hj
      · rintro rfl
        rw [hpc, PushPc.link.injEq] at hj
        exact ha hj.1.symm
  case end_next => exact h.end_next_setNext hadj
  case in_use => exact h.in_use
  case distinct => exact distinct_update h fun n hn => by simp [PushPc.node] at hn
  case producer =>
    refine producer_update h rfl trivial ?_
    intro j hji hinv
    have hne : ∀ a m, s.producer j = .link a m → m ≠ node := fun a m hj =>
      hother j m hji (by rw [hj]; rfl)
    -- a push that is not completed stays so
    refine hinv.congr rfl (fun _ => id) (fun a m hj hlt => ?_) fun a ha => ?_
    · simpa [count_append, (hne a m hj).symm] using hlt
    · refine s.queue.next_setNext_of_ne (h.known_ne hadj (fun a m hj heq => ?_) a ha) _
      exact hne a m hj (QueueNode.msg.inj heq).symm
  case consumer =>
    refine h.consumer.congr rfl rfl rfl rfl (fun _ => id)
      (fun n _ hpush => node_update hpush (by simp [PushPc.node]))
      (fun a ha => s.queue.next_setNext_of_ne (h.consumer_known_ne hadj hnone a ha) _) fun hn => ?_
    -- a node that has a successor is not the old head
    have hne : s.queue.tail ≠ oldHead := fun heq => hn (heq ▸ hnone)
    exact (s.queue.next_setNext_of_ne hne _).trans_ne hn
  case gap =>
    rintro hidle -
    exact h.gap hidle ⟨i, oldHead, node, hpc⟩
  case order => exact h.order
  case completed =>
    intro n
    rw [count_append]
    by_cases hn : n = node
    · subst hn
      simp only [count_singleton_self]
      omega
    · simpa [Ne.symm hn] using h.completed n
  case before => exact h.before.trans (prefix_append _ _)

end Producer

section Steps

variable {s s' : QueueSys ι ν}

/-- A step of a producer keeps the invariant. -/
theorem QueueInv.producerStep (h : QueueInv s) {i : ι} (hstep : s.producerStep i = some s') :
    QueueInv s' := by
  cases hpc : s.producer i with
  | idle => simp [QueueSys.producerStep, hpc] at hstep
  | clear node =>
    simp only [QueueSys.producerStep, hpc, Option.some.injEq] at hstep
    exact hstep ▸ h.clear hpc
  | exchange node =>
    simp only [QueueSys.producerStep, hpc, Option.some.injEq] at hstep
    exact hstep ▸ h.exchange hpc
  | link oldHead node =>
    simp only [QueueSys.producerStep, hpc, Option.some.injEq] at hstep
    exact hstep ▸ h.link hpc

section Pop

variable (h : QueueInv s)

include h

omit [DecidableEq ι]

/-- When the tail has no successor, it is the head, or some push was half done. -/
theorem QueueInv.head_or_gapSeen {tail : QueueNode ν} (htail : tail = s.queue.tail)
    (hnext : s.queue.next tail = none) (hidle : s.consumer ≠ .idle)
    (hlinks : ∀ a, ¬ s.consumer.Links a) : tail = s.queue.head ∨ s.gapSeen := by
  subst htail
  refine (h.chain_eq_or_gapSeen hnext hidle hlinks).imp_left fun hone => ?_
  have hhead := h.head
  rw [hone] at hhead
  exact Option.some.inj hhead

/-- The first load of `tail->next`. -/
theorem QueueInv.loadNext {tail : QueueNode ν} (hpc : s.consumer = .loadNext tail)
    (hstep : s.consumerStep = some s') : QueueInv s' := by
  have htail : tail = s.queue.tail := by
    have hcons := h.consumer
    rwa [hpc] at hcons
  have hload := fun pc => h.load pc (by simp [hpc]) (by simp [hpc, PopPc.Links])
  cases hnext : s.queue.next tail with
  | none =>
    by_cases hstub : tail = .stub
    · -- the queue is empty, or a push is half done
      simp only [QueueSys.consumerStep, hpc, hnext, if_pos hstub, Option.some.injEq] at hstep
      have hone : s.chain = [.stub] ∨ s.gapSeen := by
        rw [← hstub, htail]
        exact h.chain_eq_or_gapSeen (htail ▸ hnext) (by simp [hpc]) (by simp [hpc, PopPc.Links])
      exact hstep ▸ hload _ (by simp [PopPc.Links]) (by simp [hpc, PopPc.inHand]) hone
    · simp only [QueueSys.consumerStep, hpc, hnext, if_neg hstub, Option.some.injEq] at hstep
      exact hstep ▸ hload _ (by simp [PopPc.Links]) (by simp [hpc, PopPc.inHand])
        ⟨htail, hstub, h.head_or_gapSeen htail hnext (by simp [hpc]) (by simp [hpc, PopPc.Links])⟩
  | some next =>
    by_cases hstub : tail = .stub
    · simp only [QueueSys.consumerStep, hpc, hnext, if_pos hstub, Option.some.injEq] at hstep
      exact hstep ▸ hload _ (by simp [PopPc.Links]) (by simp [hpc, PopPc.inHand])
        ⟨htail ▸ hstub, hstub ▸ hnext⟩
    · simp only [QueueSys.consumerStep, hpc, hnext, if_neg hstub, Option.some.injEq] at hstep
      exact hstep ▸ hload _ (by simp [PopPc.Links]) (by simp [hpc, PopPc.inHand])
        ⟨htail, hstub, hnext⟩

/-- The stub at the tail is skipped. -/
theorem QueueInv.skipStub {next : QueueNode ν} (hpc : s.consumer = .skipStub next)
    (hstep : s.consumerStep = some s') : QueueInv s' := by
  have hcons := h.consumer
  rw [hpc] at hcons
  obtain ⟨htail, hnext⟩ := hcons
  have hnext' : s.queue.next s.queue.tail = some next := htail ▸ hnext
  obtain ⟨rest, hchain⟩ := h.chain_eq_of_next hnext'
  simp only [QueueSys.consumerStep, hpc, Option.some.injEq] at hstep
  refine hstep ▸ h.advance (by simp [hpc]) hnext' (by simp [hpc, PopPc.Links])
    ⟨rfl, ?_⟩ (by simp [hpc, htail, PopPc.inHand])
  -- the stub is in the chain once
  rintro rfl
  have hnodup := h.nodup
  rw [hchain, htail] at hnodup
  simp at hnodup

/-- The load of `next->next` behind the stub. -/
theorem QueueInv.reloadNext {tail : QueueNode ν} (hpc : s.consumer = .reloadNext tail)
    (hstep : s.consumerStep = some s') : QueueInv s' := by
  have hcons := h.consumer
  rw [hpc] at hcons
  obtain ⟨htail, hne⟩ := hcons
  have hload := fun pc => h.load pc (by simp [hpc]) (by simp [hpc, PopPc.Links])
  cases hnext : s.queue.next tail with
  | none =>
    simp only [QueueSys.consumerStep, hpc, hnext, Option.some.injEq] at hstep
    exact hstep ▸ hload _ (by simp [PopPc.Links]) (by simp [hpc, PopPc.inHand])
      ⟨htail, hne, h.head_or_gapSeen htail hnext (by simp [hpc]) (by simp [hpc, PopPc.Links])⟩
  | some next =>
    simp only [QueueSys.consumerStep, hpc, hnext, Option.some.injEq] at hstep
    exact hstep ▸ hload _ (by simp [PopPc.Links]) (by simp [hpc, PopPc.inHand])
      ⟨htail, hne, hnext⟩

/-- The message at the tail is taken out. -/
theorem QueueInv.take {tail next : QueueNode ν} (hpc : s.consumer = .take tail next)
    (hstep : s.consumerStep = some s') : QueueInv s' := by
  have hcons := h.consumer
  rw [hpc] at hcons
  obtain ⟨htail, hne, hnext⟩ := hcons
  have hnext' : s.queue.next s.queue.tail = some next := htail ▸ hnext
  obtain ⟨rest, hchain⟩ := h.chain_eq_of_next hnext'
  obtain ⟨n, hn⟩ : ∃ n, tail = .msg n := by
    cases tail with
    | stub => exact absurd rfl hne
    | msg n => exact ⟨n, rfl⟩
  have hmsg : s.queue.tail = .msg n := htail ▸ hn
  simp only [QueueSys.consumerStep, hpc, Option.some.injEq] at hstep
  refine hstep ▸ h.advance (by simp [hpc]) hnext' (by simp [hpc, PopPc.Links])
    ⟨n, hn, h.in_use n (hmsg ▸ h.tail_mem), ?_, h.tail_not_pushed hmsg⟩
    (by simp [hpc, ← htail, hn, PopPc.inHand])
  -- it is in the chain once
  have hnodup := h.nodup
  rw [hchain, hmsg, nodup_cons] at hnodup
  rw [hchain]
  exact hnodup.1

/-- The comparison of `tail` with `queue->head`. -/
theorem QueueInv.loadHead {tail : QueueNode ν} (hpc : s.consumer = .loadHead tail)
    (hstep : s.consumerStep = some s') : QueueInv s' := by
  have hcons := h.consumer
  rw [hpc] at hcons
  obtain ⟨htail, hne, hhead⟩ := hcons
  have hload := fun pc => h.load pc (by simp [hpc]) (by simp [hpc, PopPc.Links])
  by_cases heq : tail = s.queue.head
  · simp only [QueueSys.consumerStep, hpc, heq, ne_eq, not_true_eq_false, if_false,
      Option.some.injEq] at hstep
    refine hstep ▸ hload _ (by simp [PopPc.Links]) (by simp [hpc, PopPc.inHand])
      ⟨heq ▸ htail, heq ▸ hne, ?_, .inl rfl⟩
    -- the tail is the whole chain, and it is not the stub
    rw [h.chain_eq_singleton (htail ▸ heq), mem_singleton, ← htail]
    exact hne.symm
  · simp only [QueueSys.consumerStep, hpc, ne_eq, heq, not_false_eq_true, if_true,
      Option.some.injEq] at hstep
    exact hstep ▸ hload _ (by simp [PopPc.Links]) (by simp [hpc, PopPc.inHand])
      (.inr (hhead.resolve_left heq))

/-- The last load of `tail->next`. -/
theorem QueueInv.lastNext {tail : QueueNode ν} (hpc : s.consumer = .lastNext tail)
    (hstep : s.consumerStep = some s') : QueueInv s' := by
  have hcons := h.consumer
  rw [hpc] at hcons
  obtain ⟨htail, hne, hlast⟩ := hcons
  have hload := fun pc => h.load pc (by simp [hpc]) (by simp [hpc, PopPc.Links])
  cases hnext : s.queue.next tail with
  | none =>
    simp only [QueueSys.consumerStep, hpc, hnext, Option.some.injEq] at hstep
    exact hstep ▸ hload _ (by simp [PopPc.Links]) (by simp [hpc, PopPc.inHand])
      (.inr (hlast.resolve_left fun hn => hn hnext))
  | some next =>
    simp only [QueueSys.consumerStep, hpc, hnext, Option.some.injEq] at hstep
    exact hstep ▸ hload _ (by simp [PopPc.Links]) (by simp [hpc, PopPc.inHand])
      ⟨htail, hne, hnext⟩

/-- A step of the consumer keeps the invariant. -/
theorem QueueInv.consumerStep (hstep : s.consumerStep = some s') : QueueInv s' := by
  cases hpc : s.consumer with
  | idle => simp [QueueSys.consumerStep, hpc] at hstep
  | loadTail =>
    simp only [QueueSys.consumerStep, hpc, Option.some.injEq] at hstep
    exact hstep ▸ h.load _ (by simp [hpc]) (by simp [hpc, PopPc.Links]) (by simp [PopPc.Links])
      (by simp [hpc, PopPc.inHand]) rfl
  | loadNext tail => exact h.loadNext hpc hstep
  | skipStub next => exact h.skipStub hpc hstep
  | reloadNext tail => exact h.reloadNext hpc hstep
  | take tail next => exact h.take hpc hstep
  | loadHead tail => exact h.loadHead hpc hstep
  | stubClear tail =>
    simp only [QueueSys.consumerStep, hpc, Option.some.injEq] at hstep
    exact hstep ▸ h.stubClear hpc
  | stubExchange tail =>
    simp only [QueueSys.consumerStep, hpc, Option.some.injEq] at hstep
    exact hstep ▸ h.stubExchange hpc
  | stubLink tail oldHead =>
    simp only [QueueSys.consumerStep, hpc, Option.some.injEq] at hstep
    exact hstep ▸ h.stubLink hpc
  | lastNext tail => exact h.lastNext hpc hstep
  | ret res =>
    cases res with
    | none =>
      simp only [QueueSys.consumerStep, hpc, Option.some.injEq] at hstep
      exact hstep ▸ h.load _ (by simp [hpc]) (by simp [hpc, PopPc.Links]) (by simp [PopPc.Links])
        (by simp [hpc, PopPc.inHand]) trivial
    | some node =>
      simp only [QueueSys.consumerStep, hpc, Option.some.injEq] at hstep
      exact hstep ▸ h.ret hpc

end Pop

/-- Every step keeps the invariant. -/
theorem QueueInv.step (h : QueueInv s) {a : QueueAct ι ν} (hstep : s.step a = some s') :
    QueueInv s' := by
  cases a with
  | push i node =>
    cases hpc : s.producer i with
    | idle =>
      by_cases hbusy : node ∈ s.busy
      · simp [QueueSys.step, hpc, hbusy] at hstep
      · simp only [QueueSys.step, hpc, hbusy, if_false, Option.some.injEq] at hstep
        exact hstep ▸ h.push hpc hbusy
    | _ => simp [QueueSys.step, hpc] at hstep
  | producer i => exact h.producerStep hstep
  | pop =>
    cases hpc : s.consumer with
    | idle =>
      simp only [QueueSys.step, hpc, Option.some.injEq] at hstep
      exact hstep ▸ h.pop hpc
    | _ => simp [QueueSys.step, hpc] at hstep
  | consumer => exact h.consumerStep hstep

/-- The invariant holds in every interleaving. -/
theorem QueueInv.reachable {next : QueueNode ν → Option (QueueNode ν)}
    (hs : (system ι next).Reachable s) : QueueInv s :=
  Transition.System.invariant (fun s (hinit : s = QueueSys.create next) =>
    hinit ▸ QueueInv.create next) (fun _ _ _ _ h hstep => h.step hstep) hs

end Steps

end QueueSys

end Gazelle
