import Mathlib.Data.List.Basic
import Mathlib.Logic.Function.Basic
import Userver.Lib.Machine
import Userver.Lib.Segment

/-!
# `concurrent::impl::IntrusiveMpscQueueImpl`: the model

The queue (`intrusive_mpsc_queue.cpp`) is Vyukov's multiple-producer single-consumer queue of
intrusive nodes: `head_` is the newest node, `tail_` the oldest one the consumer has not popped,
and each node's `next` points at the node pushed after it.  A `stub_` node of the queue's own
stands in the list whenever it would otherwise be empty.

The model is an interleaving semantics under sequentially consistent atomics.  Every access of the
code to `head_` or to a node's `next` is one step, and a scheduler picks whose step comes next
(`Action`):

* a producer's `GetBackAndPush(node)` (and so `Push`) is two steps: the exchange on `head_`, and
  the store of `node` into the `next` of the node it got back.  Between the two the producer is
  recorded in `pending`, under the node it got back;
* `PushIfEmpty(node)` is a compare-and-swap of `head_` from `stub_` to `node`, then the same
  store;
* the consumer's `DoTryPop(mode)` is a program whose counter `Pc` names its next access, with the
  call's local variables; the loop of `BlockThreadUntilNotNull` is one load per step.

Nodes are `Node.item x` for distinct `x`: a push of a node that has been pushed before is not
taken (`step`), as the callers push distinct nodes.  Two fields are history, read by no step:
`pushed`, the nodes in the order of their exchanges on `head_`, and `returned`, the nodes the
consumer's calls returned, in order.

The abstraction (`queue`, `chain`) reads the queue the code implements off the history: the
pushed nodes the consumer has not taken, oldest first, and the nodes from `tail_` to `head_` that
carry them.
-/

namespace Userver

namespace Concurrent

namespace IntrusiveMpscQueue

/-- A node of the queue: its own `stub_`, or a user node. -/
inductive Node (α : Type) where
  | stub
  | item (x : α)
  deriving DecidableEq, Repr

/-- `PopMode`: `TryPopBlocking` waits for a push in progress, `TryPopWeak` does not. -/
inductive PopMode where
  | rarelyBlocking
  | weak
  deriving DecidableEq, Repr

/-- Where the consumer's `DoTryPop` call stands: each constructor names the next access the call
makes to shared memory, with the call's local `tail` or `next`. -/
inductive Pc (α : Type) where
  /-- No call in progress. -/
  | idle
  /-- `tail == head_->load()`, with `tail` the stub and its `next` null. -/
  | loadHeadOfStub
  /-- `BlockThreadUntilNotNull(GetNext(stub_))`. -/
  | spinStub
  /-- `GetNext(stub_).store(nullptr)`, then `tail_ = *next` and `tail = *next`. -/
  | discardStub (next : Node α)
  /-- `next = GetNext(tail).load()` after the stub was discarded. -/
  | loadNext (tail : Node α)
  /-- `head = head_->load()`. -/
  | loadHead (tail : Node α)
  /-- `head_->compare_exchange_strong(head, stub_)`, with `head == tail`. -/
  | casHead (tail : Node α)
  /-- `BlockThreadUntilNotNull(GetNext(tail))`. -/
  | spinTail (tail : Node α)
  /-- `GetNext(tail).store(nullptr)`, then `return tail`. -/
  | clearNext (tail : Node α)
  deriving DecidableEq, Repr

/-- The queue's fields, the threads' positions, and the history. -/
structure State (α : Type) where
  /-- `head_`: the newest node. -/
  head : Node α
  /-- `tail_`: the oldest node not yet popped; only the consumer reads or writes it. -/
  tail : Node α
  /-- Each node's `singly_linked_hook.next`; `none` is `nullptr`. -/
  next : Node α → Option (Node α)
  /-- The producers between their exchange on `head_` and their store: the producer that got
  `prev` back will store its node into `prev`'s `next`. -/
  pending : Node α → Option (Node α)
  /-- The mode of the consumer's current call. -/
  mode : PopMode
  pc : Pc α
  /-- History: the nodes in the order of their exchanges on `head_`. -/
  pushed : List (Node α)
  /-- History: the nodes the consumer's calls returned, in order. -/
  returned : List (Node α)

/-- What a thread's step answers, when the step ends a call. -/
inductive Answer (α : Type) where
  /-- `GetBackAndPush` returns the node it got back, `nullptr` for the stub. -/
  | pushed (prev : Option (Node α))
  | pushIfEmpty (ok : Bool)
  | popped (node : Option (Node α))
  deriving DecidableEq, Repr

/-- The scheduler's choice of the thread that takes the next step. -/
inductive Action (α : Type) where
  /-- A producer calls `GetBackAndPush(x)` (or `Push(x)`) and makes its exchange. -/
  | getBackAndPush (x : α)
  /-- A producer calls `PushIfEmpty(x)` and makes its compare-and-swap. -/
  | pushIfEmpty (x : α)
  /-- The producer that got `prev` back from `head_` makes its store. -/
  | store (prev : Node α)
  /-- The consumer calls `DoTryPop(mode)` and makes its first load. -/
  | tryPop (mode : PopMode)
  /-- The consumer makes the next access of its call. -/
  | consumer

variable {α : Type} [DecidableEq α]

/-- The constructor: `head_` and `tail_` at the stub, every `next` null. -/
def init : State α where
  head := .stub
  tail := .stub
  next := fun _ => none
  pending := fun _ => none
  mode := .weak
  pc := .idle
  pushed := []
  returned := []

/-! ## The producers -/

/-- `head_->exchange(node)`: the node becomes `head_`, and the producer owes the store into the
`next` of the old `head_`. -/
def exchange (s : State α) (x : α) : State α :=
  { s with head := .item x, pending := Function.update s.pending s.head (some (.item x)),
           pushed := s.pushed ++ [.item x] }

/-- `GetBackAndPush(node)`: the exchange; the call answers the node it got back, `nullptr` for
the stub. -/
def getBackAndPush (s : State α) (x : α) : Option (Answer α) × State α :=
  (some (.pushed (if s.head = .stub then none else some s.head)), exchange s x)

/-- `PushIfEmpty(node)`: `head_->compare_exchange_strong(stub_, node)`. -/
def pushIfEmpty (s : State α) (x : α) : Option (Answer α) × State α :=
  if s.head = .stub then (some (.pushIfEmpty true), exchange s x)
  else (some (.pushIfEmpty false), s)

/-- `GetNext(prev).store(node)`: the producer that got `prev` back makes its store. -/
def storeNext (s : State α) (prev node : Node α) : State α :=
  { s with next := Function.update s.next prev (some node),
           pending := Function.update s.pending prev none }

/-- The store of the producer that got `prev` back, if one owes it. -/
def store (s : State α) (prev : Node α) : Option (Answer α) × State α :=
  match s.pending prev with
  | none => (none, s)
  | some node => (none, storeNext s prev node)

/-! ## The consumer -/

/-- `tail_ = *next` with `next` the node after `tail`: the call has taken `tail`, and goes on to
clear its `next` and return it. -/
def take (s : State α) (tail n : Node α) : State α :=
  { s with tail := n, pc := .clearNext tail }

/-- `GetNext(tail).store(nullptr); return tail;` -/
def release (s : State α) (tail : Node α) : State α :=
  { s with next := Function.update s.next tail none, pc := .idle, returned := s.returned ++ [tail] }

/-- `GetNext(stub_).store(nullptr); tail_ = *next; tail = *next;`: the stub leaves the list. -/
def discard (s : State α) (n : Node α) : State α :=
  { s with next := Function.update s.next .stub none, tail := n, pc := .loadNext n }

/-- The compare-and-swap of `head_` from `tail` back to the stub succeeded: `tail_ = stub_;
return tail;` -/
def popLast (s : State α) (tail : Node α) : State α :=
  { s with head := .stub, tail := .stub, pc := .idle, returned := s.returned ++ [tail] }

/-- After `next = GetNext(tail).load()`, with `tail` not the stub: on the happy path the call
takes `tail`, otherwise it goes on to load `head_`. -/
def afterLoad (s : State α) (tail : Node α) : Option (Node α) → State α
  | some n => take s tail n
  | none => { s with pc := .loadHead tail }

/-- `DoTryPop(mode)` up to its first load, `next = GetNext(tail_).load()`. -/
def tryPop (s : State α) (mode : PopMode) : Option (Answer α) × State α :=
  let s := { s with mode := mode }
  if s.tail = .stub then
    match s.next .stub with
    | none =>
      if mode = .weak then (some (.popped none), s) else (none, { s with pc := .loadHeadOfStub })
    | some n => (none, { s with pc := .discardStub n })
  else (none, afterLoad s s.tail (s.next s.tail))

/-- A push after `tail` has not made its store yet: `TryPopWeak` returns `nullptr`,
`TryPopBlocking` waits for the store. -/
def waitFor (s : State α) (tail : Node α) : Option (Answer α) × State α :=
  if s.mode = .weak then (some (.popped none), { s with pc := .idle })
  else (none, { s with pc := .spinTail tail })

/-- The consumer's next access within its call. -/
def consume (s : State α) : Option (Answer α) × State α :=
  match s.pc with
  | .idle => (none, s)
  | .loadHeadOfStub =>
    -- `tail == head_`: the queue is logically empty
    if s.head = .stub then (some (.popped none), { s with pc := .idle })
    else (none, { s with pc := .spinStub })
  | .spinStub =>
    match s.next .stub with
    | none => (none, s)
    | some n => (none, { s with pc := .discardStub n })
  | .discardStub n => (none, discard s n)
  | .loadNext t => (none, afterLoad s t (s.next t))
  | .loadHead t => if s.head = t then (none, { s with pc := .casHead t }) else waitFor s t
  | .casHead t =>
    if s.head = t then (some (.popped (some t)), popLast s t) else waitFor s t
  | .spinTail t =>
    match s.next t with
    | none => (none, s)
    | some n => (none, take s t n)
  | .clearNext t => (some (.popped (some t)), release s t)

/-- One step of the thread the scheduler picks.  A push of a node pushed before, a new call while
the consumer is in one, and a store of a producer that owes none are not taken. -/
def step (s : State α) : Action α → Option (Answer α) × State α
  | .getBackAndPush x => if .item x ∈ s.pushed then (none, s) else getBackAndPush s x
  | .pushIfEmpty x => if .item x ∈ s.pushed then (none, s) else pushIfEmpty s x
  | .store prev => store s prev
  | .tryPop mode => if s.pc = .idle then tryPop s mode else (none, s)
  | .consumer => consume s

/-- The states of some interleaving from the constructor. -/
def Reachable (s : State α) : Prop := Machine.Reachable step init s

/-! ## The abstraction -/

/-- The node a call has taken and not yet returned: its `tail` between `tail_ = *next` and the
return. -/
def Pc.held : Pc α → List (Node α)
  | .clearNext t => [t]
  | _ => []

/-- The nodes the consumer has taken: those its calls returned, and the one a call holds. -/
def taken (s : State α) : List (Node α) := s.returned ++ s.pc.held

/-- The abstract FIFO queue: the pushed nodes the consumer has not taken, oldest first. -/
def queue (s : State α) : List (Node α) := s.pushed.drop (taken s).length

/-- The nodes from `tail_` to `head_`: the stub when `tail_` is the stub, then the queue. -/
def chain (s : State α) : List (Node α) := if s.tail = .stub then .stub :: queue s else queue s

/-- Where a node's `next` points once every producer has made its store. -/
def State.link (s : State α) (a : Node α) : Option (Node α) := (s.next a).or (s.pending a)

/-! ## What each step changes -/

section Lemmas

variable (s : State α)

@[simp] theorem taken_exchange (x : α) : taken (exchange s x) = taken s := rfl
@[simp] theorem pushed_exchange (x : α) : (exchange s x).pushed = s.pushed ++ [.item x] := rfl
@[simp] theorem tail_exchange (x : α) : (exchange s x).tail = s.tail := rfl

omit [DecidableEq α] in
theorem queue_eq_of_taken {s s' : State α} (hp : s'.pushed = s.pushed) (ht : taken s' = taken s) :
    queue s' = queue s := by
  simp only [queue, hp, ht]

omit [DecidableEq α] in
theorem link_of_next {s : State α} {a b : Node α} (h : s.next a = some b) : s.link a = some b := by
  simp [State.link, h]

omit [DecidableEq α] in
theorem link_eq_none {s : State α} {a : Node α} :
    s.link a = none ↔ s.next a = none ∧ s.pending a = none := by
  simp [State.link, Option.or_eq_none_iff]

/-- The exchange changes the link of the old `head_` only. -/
theorem link_exchange_of_ne {x : α} {a : Node α} (ha : a ≠ s.head) :
    (exchange s x).link a = s.link a := by
  simp [State.link, exchange, Function.update_of_ne ha]

/-- A store moves a link from `pending` to `next`; the link map stays. -/
theorem link_storeNext {prev n : Node α} (hp : s.pending prev = some n) (hnext : s.next prev = none) :
    (storeNext s prev n).link = s.link := by
  funext a
  by_cases ha : a = prev
  · subst ha
    simp [State.link, storeNext, hp, hnext]
  · simp [State.link, storeNext, Function.update_of_ne ha]

/-- Clearing a `next` with no store owed into it cuts the node's link, and no other. -/
theorem link_clear {t : Node α} (ht : s.pending t = none) (a : Node α) :
    ({ s with next := Function.update s.next t none } : State α).link a =
      if a = t then none else s.link a := by
  by_cases ha : a = t
  · subst ha
    simp [State.link, ht]
  · simp [State.link, ha]

end Lemmas

end IntrusiveMpscQueue

end Concurrent

end Userver
