import Mathlib.Data.List.Basic
import Userver.Lib.Machine

/-!
# `engine::impl::AsyncFlatCombiningQueue`: the model

The queue (`async_flat_combining_queue.cpp`) is a multiple-producer queue without a consumer of
its own: whoever pushes right behind the queue's own `consumer_node_` becomes the consumer, runs
`ConsumeAndStop` over what the others push, and leaves by pushing `consumer_node_` back into the
queue once it finds the queue empty.  One task may also wait for the role
(`WaitAndStartConsuming`, with `start_consuming_notifier_node_`) and, once it has it, sleep while
the queue is empty (`WaitWhileEmpty`, with `while_empty_notifier_node_`).

The model is an interleaving semantics.  Underneath is `queue_`, an `IntrusiveMpscQueueImpl`,
taken here as the FIFO queue that `Userver.Concurrent.IntrusiveMpscQueue` proves it to be: a call
of it is one atomic step on a list of nodes (`getBackAndPush`, `pushIfEmpty`, `tryPopBlocking`),
as the linearization of that queue (`step_linearizes`, `getBackAndPush_returns_newest`,
`pushIfEmpty_iff_empty`, `tryPopBlocking_null_only_when_empty`) allows.  Above it, every call of
`queue_` and every wakeup of the waiting task is one step; the accesses of a thread to the plain
fields and to `has_consumer_` around such a call are folded into it.  A scheduler picks the
thread that moves (`Action`):

* a producer's `PushAndTryStartConsuming(node)` is one step, its `GetBackAndPush`; a producer
  that got `while_empty_notifier_node_` back still owes its `NotifyAsyncConsumer` (`notifiers`),
  and one that got `consumer_node_` back holds a valid `Consumer` and runs `ConsumeAndStop`
  (`consumers`); the others have returned;
* the waiting task is a program whose counter `Waiter` names its next step.

Each step also answers whether the assertions (`UASSERT`) it passes hold; a wakeup of a task that
is not asleep on the queue counts as a failed assertion, since the code relies on it never
happening ("otherwise another consumer may see notifier_node_ later and wake up a dead task").
Two fields are history, read by no step: `pushed`, the users' nodes in the order of their pushes,
and `consumed`, the nodes handed to `consumer_func` or returned by the waiting task's `TryPop`.
-/

namespace Userver

namespace Engine

namespace AsyncFlatCombiningQueue

/-- A node of `queue_`: one of the queue's own three, or a user's node. -/
inductive Node (α : Type) where
  /-- `consumer_node_`: whoever pushes right behind it becomes the consumer. -/
  | consumerNode
  /-- `while_empty_notifier_node_`: whoever pushes right behind it wakes the waiting task. -/
  | whileEmptyNotifierNode
  /-- `start_consuming_notifier_node_`: the consumer that pops it hands over to the waiting
  task. -/
  | startConsumingNotifierNode
  | user (x : α)
  deriving DecidableEq, Repr

/-! ## `queue_` as a linearizable FIFO queue -/

section Queue

variable {α : Type}

/-- `GetBackAndPush(node)`: the newest node, if any, and the queue with `node` behind it. -/
def getBackAndPush (q : List (Node α)) (n : Node α) : Option (Node α) × List (Node α) :=
  (q.getLast?, q ++ [n])

/-- `PushIfEmpty(node)`: pushes `node` only into an empty queue. -/
def pushIfEmpty (q : List (Node α)) (n : Node α) : Bool × List (Node α) :=
  match q with
  | [] => (true, [n])
  | q => (false, q)

/-- `TryPopBlocking()`: the oldest node, `nullptr` only for an empty queue. -/
def tryPopBlocking (q : List (Node α)) : Option (Node α) × List (Node α) :=
  (q.head?, q.tail)

end Queue

/-- Where a `Consumer` stands in `ConsumeAndStop`: its next step is a `TryPopBlocking` of
`TryPop`, or its `TryStopConsuming`. -/
inductive Loop where
  | popping
  | stopping
  deriving DecidableEq, Repr

/-- Which `TryStartWaiting` a `Wait` of the waiting task runs. -/
inductive Wait where
  /-- `Wait<&TryStartWaitingForConsumer>`, from `WaitAndStartConsuming`. -/
  | forConsumer
  /-- `Wait<&TryStartWaitingWhileEmpty>`, from `WaitWhileEmpty`. -/
  | whileEmpty
  deriving DecidableEq, Repr

/-- Where the waiting task stands: each constructor names its next step. -/
inductive Waiter where
  /-- Not in a call, and holding no `Consumer`. -/
  | idle
  /-- `TryStartWaitingForConsumer` got `consumer_node_` back: `node1 = queue_.TryPopBlocking()`. -/
  | popConsumerNode
  /-- `node2 = queue_.TryPopBlocking()`, then the early wakeup and `Consumer{*this}`. -/
  | popStartNode
  /-- Asleep in `Wait`, or `woken` by `NotifyAsyncConsumer` and about to go on. -/
  | sleeping (w : Wait) (woken : Bool)
  /-- Holding its `Consumer` between calls. -/
  | holding
  /-- In `TryPop`, after `DoTryPop` went round its loop past `consumer_node_`. -/
  | tryPop
  /-- `WaitWhileEmpty` after the wakeup, with `should_pop_notifier_node_` set: `TryPopBlocking`. -/
  | popNotifierNode
  /-- In `ConsumeAndStop`. -/
  | consuming (l : Loop)
  deriving DecidableEq, Repr

/-- The queue's fields, the threads' positions, and the history. -/
structure State (α : Type) where
  /-- `queue_`, oldest node first. -/
  queue : List (Node α)
  /-- `should_pass_consumer_to_waiter_`. -/
  shouldPassConsumerToWaiter : Bool
  /-- `should_pop_notifier_node_`. -/
  shouldPopNotifierNode : Bool
  /-- `has_consumer_`, the diagnostic flag of the `Consumer` constructor. -/
  hasConsumer : Bool
  /-- The producers that got a valid `Consumer` and run `ConsumeAndStop` with it. -/
  consumers : List Loop
  /-- The producers that got `while_empty_notifier_node_` back and have not yet called
  `NotifyAsyncConsumer`. -/
  notifiers : Nat
  waiter : Waiter
  /-- History: the users' nodes, in the order of their pushes. -/
  pushed : List α
  /-- History: the nodes handed to `consumer_func` or returned by the waiting task's `TryPop`. -/
  consumed : List (Node α)

/-- The scheduler's choice of the thread that takes the next step. -/
inductive Action (α : Type) where
  /-- A new producer calls `PushAndTryStartConsuming(x)`. -/
  | pushAndTryStartConsuming (x : α)
  /-- A producer that got `while_empty_notifier_node_` back calls `NotifyAsyncConsumer`. -/
  | notifier
  /-- The `i`-th producer running `ConsumeAndStop` takes its next step. -/
  | consumer (i : Nat)
  /-- The waiting task calls `WaitAndStartConsuming`. -/
  | waitAndStartConsuming
  /-- The waiting task, holding its `Consumer`, calls `TryPop`. -/
  | tryPop
  /-- The waiting task, holding its `Consumer`, calls `WaitWhileEmpty`. -/
  | waitWhileEmpty
  /-- The waiting task, holding its `Consumer`, calls `ConsumeAndStop`. -/
  | consumeAndStop
  /-- The waiting task takes the next step of its call. -/
  | waiter

variable {α : Type} [DecidableEq α]

/-- The constructor: `queue_.Push(consumer_node_)`. -/
def init : State α where
  queue := [.consumerNode]
  shouldPassConsumerToWaiter := false
  shouldPopNotifierNode := false
  hasConsumer := false
  consumers := []
  notifiers := 0
  waiter := .idle
  pushed := []
  consumed := []

/-- `NotifyAsyncConsumer()`: wakes the waiting task, which must be asleep. -/
def notifyAsyncConsumer (s : State α) : Bool × State α :=
  match s.waiter with
  | .sleeping w false => (true, { s with waiter := .sleeping w true })
  | _ => (false, s)

/-! ## The producers -/

/-- `PushAndTryStartConsuming(node)`: the producer pushes its node, and what it got back decides
whether it owes a wakeup, becomes the consumer, or has nothing more to do. -/
def pushAndTryStartConsuming (s : State α) (x : α) : Bool × State α :=
  let r := getBackAndPush s.queue (.user x)
  let s := { s with queue := r.2, pushed := s.pushed ++ [x] }
  if r.1 = some .whileEmptyNotifierNode then (true, { s with notifiers := s.notifiers + 1 })
  else if r.1 = some .consumerNode then
    -- `Consumer{*this}`: `UASSERT(!queue_->has_consumer_.exchange(true))`
    (!s.hasConsumer, { s with hasConsumer := true, consumers := s.consumers ++ [.popping] })
  else (true, s)

/-- A producer that got `while_empty_notifier_node_` back calls `NotifyAsyncConsumer`. -/
def notifierStep (s : State α) : Bool × State α :=
  match s.notifiers with
  | 0 => (true, s)
  | n + 1 =>
    let r := notifyAsyncConsumer s
    (r.1, { r.2 with notifiers := n })

/-! ## The consumer -/

/-- What one `TryPopBlocking` of `DoTryPop`'s loop leads to. -/
inductive Popped (α : Type) where
  /-- It got `consumer_node_`: the loop goes round again. -/
  | retry
  /-- `DoTryPop` returns `nullptr`. -/
  | null
  /-- `DoTryPop` returns the node. -/
  | node (n : Node α)
  deriving DecidableEq, Repr

/-- One `TryPopBlocking` of `DoTryPop`'s loop. -/
def doTryPop (s : State α) : Popped α × State α :=
  let r := tryPopBlocking s.queue
  let s := { s with queue := r.2 }
  match r.1 with
  | none => (.null, s)
  -- another task waits in `WaitAndStartConsuming`; it will consume the remaining nodes
  | some .startConsumingNotifierNode => (.null, { s with shouldPassConsumerToWaiter := true })
  | some .consumerNode => (.retry, s)
  | some n => (.node n, s)

/-- `DoTryStopConsuming()`: the checks, whether the consumer has left, and the state. -/
def doTryStopConsuming (s : State α) : Bool × Bool × State α :=
  -- `UASSERT(has_consumer_.exchange(false))`
  let ok := s.hasConsumer
  let s := { s with hasConsumer := false }
  if s.shouldPassConsumerToWaiter then
    let r := notifyAsyncConsumer { s with shouldPassConsumerToWaiter := false }
    (ok && r.1, true, r.2)
  else
    let r := pushIfEmpty s.queue .consumerNode
    if r.1 then (ok, true, { s with queue := r.2 })
    -- `UASSERT(!has_consumer_.exchange(true))`
    else (ok && !s.hasConsumer, false, { s with hasConsumer := true })

/-- One step of `ConsumeAndStop` from `l`: the checks, the state, and where the loop stands
next, `none` once `TryStopConsuming` has succeeded. -/
def consumeAndStop (s : State α) : Loop → Bool × State α × Option Loop
  | .popping =>
    match doTryPop s with
    | (.retry, s) => (true, s, some .popping)
    | (.null, s) => (true, s, some .stopping)
    | (.node n, s) => (true, { s with consumed := s.consumed ++ [n] }, some .popping)
  | .stopping =>
    let r := doTryStopConsuming s
    (r.1, r.2.2, if r.2.1 then none else some .popping)

/-- The step of the `i`-th producer running `ConsumeAndStop`; it is gone once it has left. -/
def consumerStep (s : State α) (i : Nat) : Bool × State α :=
  match s.consumers[i]? with
  | none => (true, s)
  | some l =>
    let r := consumeAndStop s l
    (r.1, { r.2.1 with
      consumers :=
        match r.2.2 with
        | none => s.consumers.eraseIdx i
        | some l' => s.consumers.set i l' })

/-! ## The waiting task -/

/-- `WaitAndStartConsuming()` up to its sleep: `Wait` runs `TryStartWaitingForConsumer`, which
pushes `start_consuming_notifier_node_`.  Behind `consumer_node_` the task is the consumer at
once and goes on to pop both nodes; otherwise it sleeps until the consumer hands over. -/
def tryStartWaitingForConsumer (s : State α) : Bool × State α :=
  let r := getBackAndPush s.queue .startConsumingNotifierNode
  let ok := r.1 != some .whileEmptyNotifierNode && r.1 != some .startConsumingNotifierNode
  let s := { s with queue := r.2 }
  if r.1 = some .consumerNode then (ok, { s with waiter := .popConsumerNode })
  else (ok, { s with waiter := .sleeping .forConsumer false })

/-- `WaitWhileEmpty(consumer)` up to its sleep: `Wait` runs `TryStartWaitingWhileEmpty`, which
pushes `while_empty_notifier_node_` only into an empty queue and sleeps only then.  On the early
wakeup `should_pop_notifier_node_` is false and the call returns. -/
def tryStartWaitingWhileEmpty (s : State α) : Bool × State α :=
  -- `UASSERT_MSG(!should_pop_notifier_node_, "Multiple consumers detected")`
  let ok := !s.shouldPopNotifierNode
  let r := pushIfEmpty s.queue .whileEmptyNotifierNode
  let s := { s with queue := r.2, shouldPopNotifierNode := r.1 }
  if r.1 then (ok, { s with waiter := .sleeping .whileEmpty false })
  else (ok, { s with waiter := .holding })

/-- A `TryPopBlocking` of the `DoTryPop` of the waiting task's `TryPop`. -/
def waiterTryPop (s : State α) : Bool × State α :=
  match doTryPop s with
  | (.retry, s) => (true, { s with waiter := .tryPop })
  | (.null, s) => (true, { s with waiter := .holding })
  | (.node n, s) => (true, { s with consumed := s.consumed ++ [n], waiter := .holding })

/-- The waiting task's next step in its call. -/
def waiterStep (s : State α) : Bool × State α :=
  match s.waiter with
  | .idle => (true, s)
  | .popConsumerNode =>
    let r := tryPopBlocking s.queue
    (r.1 == some .consumerNode, { s with queue := r.2, waiter := .popStartNode })
  | .popStartNode =>
    let r := tryPopBlocking s.queue
    -- the early wakeup; `WaitAndStartConsuming` returns `Consumer{*this}`
    (r.1 == some .startConsumingNotifierNode && !s.hasConsumer,
      { s with queue := r.2, hasConsumer := true, waiter := .holding })
  | .sleeping .forConsumer true =>
    -- `WaitAndStartConsuming` returns `Consumer{*this}`
    (!s.hasConsumer, { s with hasConsumer := true, waiter := .holding })
  | .sleeping .whileEmpty true =>
    -- `if (std::exchange(should_pop_notifier_node_, false))`
    if s.shouldPopNotifierNode then
      (true, { s with shouldPopNotifierNode := false, waiter := .popNotifierNode })
    else (true, { s with waiter := .holding })
  | .sleeping _ false => (true, s)
  | .popNotifierNode =>
    let r := tryPopBlocking s.queue
    (r.1 == some .whileEmptyNotifierNode, { s with queue := r.2, waiter := .holding })
  | .holding => (true, s)
  | .tryPop => waiterTryPop s
  | .consuming l =>
    let r := consumeAndStop s l
    (r.1, { r.2.1 with
      waiter :=
        match r.2.2 with
        | none => .idle
        | some l' => .consuming l' })

/-- One step of the thread the scheduler picks.  A push of a node pushed before, and a call of
the waiting task that its position does not allow, are not taken. -/
def step (s : State α) : Action α → Bool × State α
  | .pushAndTryStartConsuming x =>
    if x ∈ s.pushed then (true, s) else pushAndTryStartConsuming s x
  | .notifier => notifierStep s
  | .consumer i => consumerStep s i
  | .waitAndStartConsuming =>
    if s.waiter = .idle then tryStartWaitingForConsumer s else (true, s)
  | .tryPop => if s.waiter = .holding then waiterTryPop s else (true, s)
  | .waitWhileEmpty => if s.waiter = .holding then tryStartWaitingWhileEmpty s else (true, s)
  | .consumeAndStop =>
    if s.waiter = .holding then (true, { s with waiter := .consuming .popping }) else (true, s)
  | .waiter => waiterStep s

/-- The states of some interleaving from the constructor. -/
def Reachable (s : State α) : Prop := Machine.Reachable step init s

end AsyncFlatCombiningQueue

end Engine

end Userver
