import Userver.Engine.AsyncFlatCombiningQueueInvariant

/-!
# `AsyncFlatCombiningQueue`: what the queue guarantees

Each guarantee is a theorem over every state of every interleaving (`Reachable`):

* `uasserts_hold`: no step fails an assertion of the code, and no wakeup reaches a task that is
  not asleep on the queue;
* `consumer_token_unique`: the right to consume has exactly one holder at every moment, and
  `has_consumer_` is set exactly while a `Consumer` is valid, so at most one thread pops
  `queue_`;
* `users_accounted`: the users' nodes handed out are the pushed ones, in push order, each at
  most once and never one of the queue's own; `queue_` never holds a node twice;
* `quiescent_queue`: once every call has returned, every pushed node has been handed out and
  `queue_` holds `consumer_node_` alone, as the destructor asserts;
* `waitAndStartConsuming_woken_by_consumer`, `waitWhileEmpty_woken_by_next_push`: no wakeup is
  lost: the task asleep for the consumer is woken by the consumer running alone, and the task
  asleep while the queue is empty by the first push.
-/

namespace Userver

namespace Engine

namespace AsyncFlatCombiningQueue

variable {α : Type} [DecidableEq α] {s : State α}

/-! ## The assertions -/

theorem uasserts_hold (hs : Reachable s) (a : Action α) : (step s a).1 = true :=
  (inv_step hs.inv a).1

/-- A producer's push, the task's call, the consumer that the push made: every step checks. -/
theorem uasserts_hold_after_push_and_wait :
    (step (Machine.run step (init : State ℕ) [.pushAndTryStartConsuming 1,
      .waitAndStartConsuming]).2 (.consumer 0)).1 = true :=
  uasserts_hold ⟨_, rfl⟩ _

/-! ## One consumer -/

/-- The task holds the right to consume: from finding `consumer_node_` in front of its node, or
from its wakeup, until its `ConsumeAndStop` returns. -/
def Waiter.holds : Waiter → Bool
  | .idle => false
  | .sleeping .forConsumer false => false
  | _ => true

/-- The task holds a valid `Consumer`. -/
def Waiter.hasConsumer : Waiter → Bool
  | .holding | .tryPop | .consuming _ | .sleeping .whileEmpty _ | .popNotifierNode => true
  | _ => false

/-- Exactly one of these holds the right to consume: a producer in `ConsumeAndStop`, the task,
or `consumer_node_` at the back of `queue_` for whoever pushes next.  `has_consumer_` is set
exactly while a producer or the task holds a valid `Consumer`. -/
theorem consumer_token_unique (hs : Reachable s) :
    s.consumers.length + (if s.waiter.holds then 1 else 0) +
        (if s.queue.getLast? = some .consumerNode then 1 else 0) = 1 ∧
      s.hasConsumer = (!s.consumers.isEmpty || s.waiter.hasConsumer) := by
  cases hs.inv.config with
  | producer l xs Q hQ =>
    simp [Waiter.holds, Waiter.hasConsumer, hQ.getLast?_eq, List.getLast?_map]
  | producerWaited l xs ys Q hQ =>
    simp [Waiter.holds, Waiter.hasConsumer, hQ.getLast?_eq, getLast?_ne_of_not_mem]
  | waiter w xs hw =>
    cases w <;> simp_all [Waiter.holds, Waiter.hasConsumer, Waiter.active, List.getLast?_map]
  | _ => simp [Waiter.holds, Waiter.hasConsumer, List.getLast?_map, getLast?_ne_of_not_mem]

theorem consumer_token_unique_after_push :
    (Machine.run step (init : State ℕ) [.pushAndTryStartConsuming 1]).2.consumers.length +
          (if (Machine.run step (init : State ℕ) [.pushAndTryStartConsuming 1]).2.waiter.holds
            then 1 else 0) +
          (if (Machine.run step (init : State ℕ) [.pushAndTryStartConsuming 1]).2.queue.getLast? =
            some .consumerNode then 1 else 0) = 1 ∧
      (Machine.run step (init : State ℕ) [.pushAndTryStartConsuming 1]).2.hasConsumer =
        (!(Machine.run step (init : State ℕ) [.pushAndTryStartConsuming 1]).2.consumers.isEmpty ||
          (Machine.run step (init : State ℕ) [.pushAndTryStartConsuming 1]).2.waiter.hasConsumer) :=
  consumer_token_unique ⟨_, rfl⟩

/-! ## The users' nodes -/

/-- The users' nodes handed out, then those still in `queue_`, are the pushed ones in push
order; so each is handed out at most once, in push order, and none of the queue's own nodes is
ever handed out.  `queue_` never holds a node twice: a node is pushed only while it is out of
the queue, as the intrusive queue requires. -/
theorem users_accounted (hs : Reachable s) :
    s.consumed ++ s.queue.filter Node.isUser = s.pushed.map .user ∧ s.queue.Nodup := by
  have h := hs.inv
  refine ⟨h.accounting, ?_⟩
  have hu := h.nodup_users
  cases h.config with
  | producer l xs Q hQ =>
    rw [hQ.filter_isUser] at hu
    rcases hQ with rfl | ⟨-, -, rfl⟩ <;> simp_all
  | producerWaited l xs ys Q hQ =>
    rw [hQ.filter_isUser] at hu
    rcases hQ with rfl | ⟨-, -, rfl⟩ <;> simp_all [List.nodup_append]
  | _ => simp_all

theorem users_accounted_after_pops :
    (Machine.run step (init : State ℕ) [.pushAndTryStartConsuming 1, .pushAndTryStartConsuming 2,
        .consumer 0, .consumer 0]).2.consumed ++
          (Machine.run step (init : State ℕ) [.pushAndTryStartConsuming 1,
            .pushAndTryStartConsuming 2, .consumer 0, .consumer 0]).2.queue.filter Node.isUser =
        (Machine.run step (init : State ℕ) [.pushAndTryStartConsuming 1,
          .pushAndTryStartConsuming 2, .consumer 0, .consumer 0]).2.pushed.map .user ∧
      (Machine.run step (init : State ℕ) [.pushAndTryStartConsuming 1, .pushAndTryStartConsuming 2,
        .consumer 0, .consumer 0]).2.queue.Nodup :=
  users_accounted ⟨_, rfl⟩

/-- Once every call has returned (no producer in `ConsumeAndStop` or owing a wakeup, the task
in no call), every pushed node has been handed out and `queue_` holds `consumer_node_` alone;
the flags are clear, as the destructor's assertions require. -/
theorem quiescent_queue (hs : Reachable s) (hc : s.consumers = []) (hn : s.notifiers = 0)
    (hw : s.waiter = .idle) :
    s.queue = [.consumerNode] ∧ s.consumed = s.pushed.map .user ∧ s.hasConsumer = false ∧
      s.shouldPassConsumerToWaiter = false ∧ s.shouldPopNotifierNode = false := by
  have hacc := hs.inv.accounting
  cases hs.inv.config with
  | free => simpa using hacc
  | waiter w xs hact =>
    subst hw
    simp [Waiter.active] at hact
  | _ => simp_all

theorem quiescent_queue_after_consume :
    (Machine.run step (init : State ℕ) [.pushAndTryStartConsuming 1, .consumer 0, .consumer 0,
        .consumer 0, .consumer 0]).2.consumers = [] ∧
      (Machine.run step (init : State ℕ) [.pushAndTryStartConsuming 1, .consumer 0, .consumer 0,
        .consumer 0, .consumer 0]).2.notifiers = 0 ∧
      (Machine.run step (init : State ℕ) [.pushAndTryStartConsuming 1, .consumer 0, .consumer 0,
        .consumer 0, .consumer 0]).2.waiter = .idle ∧
      ((Machine.run step (init : State ℕ) [.pushAndTryStartConsuming 1, .consumer 0, .consumer 0,
        .consumer 0, .consumer 0]).2.queue = [.consumerNode] ∧
      (Machine.run step (init : State ℕ) [.pushAndTryStartConsuming 1, .consumer 0, .consumer 0,
        .consumer 0, .consumer 0]).2.consumed =
          (Machine.run step (init : State ℕ) [.pushAndTryStartConsuming 1, .consumer 0,
            .consumer 0, .consumer 0, .consumer 0]).2.pushed.map .user ∧
      (Machine.run step (init : State ℕ) [.pushAndTryStartConsuming 1, .consumer 0, .consumer 0,
        .consumer 0, .consumer 0]).2.hasConsumer = false ∧
      (Machine.run step (init : State ℕ) [.pushAndTryStartConsuming 1, .consumer 0, .consumer 0,
        .consumer 0, .consumer 0]).2.shouldPassConsumerToWaiter = false ∧
      (Machine.run step (init : State ℕ) [.pushAndTryStartConsuming 1, .consumer 0, .consumer 0,
        .consumer 0, .consumer 0]).2.shouldPopNotifierNode = false) :=
  ⟨rfl, rfl, rfl, quiescent_queue ⟨_, rfl⟩ rfl rfl rfl⟩

/-! ## No lost wakeup -/

section Handover

variable {q : List (Node α)} {w : Waiter} {ps : List α} {cs : List (Node α)}

theorem step_consumer_popping_user {x : α} :
    step (⟨.user x :: q, false, false, true, [.popping], 0, w, ps, cs⟩ : State α) (.consumer 0) =
      (true, ⟨q, false, false, true, [.popping], 0, w, ps, cs ++ [.user x]⟩) := by
  dsimp only [step]
  rw [consumerStep_zero rfl, consumeAndStop_popping_user rfl]
  rfl

theorem step_consumer_popping_consumerNode :
    step (⟨.consumerNode :: q, false, false, true, [.popping], 0, w, ps, cs⟩ : State α)
        (.consumer 0) =
      (true, ⟨q, false, false, true, [.popping], 0, w, ps, cs⟩) := by
  dsimp only [step]
  rw [consumerStep_zero rfl, consumeAndStop_popping_consumerNode rfl]
  rfl

theorem step_consumer_stopping (hq : q ≠ []) :
    step (⟨q, false, false, true, [.stopping], 0, w, ps, cs⟩ : State α) (.consumer 0) =
      (true, ⟨q, false, false, true, [.popping], 0, w, ps, cs⟩) := by
  obtain ⟨n, q, rfl⟩ := List.exists_cons_of_ne_nil hq
  dsimp only [step]
  rw [consumerStep_zero rfl, consumeAndStop_stopping_cons rfl rfl]
  rfl

/-- The producer in `ConsumeAndStop`, running alone in front of the task's node, pops the users'
nodes before it, pops the task's node, and hands over: the task is woken. -/
theorem run_consumer_hands_over (xs ys : List α) (cs : List (Node α)) :
    (Machine.run step
        (⟨xs.map .user ++ .startConsumingNotifierNode :: ys.map .user, false, false, true,
          [.popping], 0, .sleeping .forConsumer false, ps, cs⟩ : State α)
        (List.replicate (xs.length + 2) (.consumer 0))).2.waiter = .sleeping .forConsumer true := by
  -- induction on the users' nodes in front of the task's node; each step pops one
  induction xs generalizing cs with
  | nil => rfl
  | cons x xs ih =>
    rw [List.length_cons, Nat.add_right_comm, List.replicate_succ, Machine.run_cons, List.map_cons,
      List.cons_append, step_consumer_popping_user]
    exact ih (cs ++ [Node.user x])

end Handover

/-- The task asleep in `WaitAndStartConsuming` is woken by the consumer running alone, within as
many of its steps as `queue_` holds nodes, and two. -/
theorem waitAndStartConsuming_woken_by_consumer (hs : Reachable s)
    (hw : s.waiter = .sleeping .forConsumer false) :
    ∃ n ≤ s.queue.length + 2,
      (Machine.run step s (List.replicate n (.consumer 0))).2.waiter =
        .sleeping .forConsumer true := by
  cases hs.inv.config with
  | producerWaited l xs ys Q hQ =>
    rcases hQ with rfl | ⟨rfl, -, rfl⟩
    · cases l with
      | popping => exact ⟨xs.length + 2, by simp, run_consumer_hands_over xs ys _⟩
      | stopping =>
        -- `TryStopConsuming` finds the task's node in the queue, and the producer goes on
        refine ⟨xs.length + 2 + 1, by simp, ?_⟩
        rw [List.replicate_succ, Machine.run_cons, step_consumer_stopping (by simp)]
        exact run_consumer_hands_over xs ys _
    · -- the first pop takes `consumer_node_`
      refine ⟨xs.length + 2 + 1, by simp, ?_⟩
      rw [List.replicate_succ, Machine.run_cons, step_consumer_popping_consumerNode]
      exact run_consumer_hands_over xs ys _
  | handingOver xs => exact ⟨1, by simp, rfl⟩
  | waiter w xs hact =>
    subst hw
    simp [Waiter.active] at hact
  | _ => cases hw

/-- A producer pushes, then the task asks to be the consumer and goes to sleep. -/
theorem waitAndStartConsuming_woken_by_consumer_after_push :
    ∃ n ≤ (Machine.run step (init : State ℕ) [.pushAndTryStartConsuming 1,
        .waitAndStartConsuming]).2.queue.length + 2,
      (Machine.run step (Machine.run step (init : State ℕ) [.pushAndTryStartConsuming 1,
        .waitAndStartConsuming]).2 (List.replicate n (.consumer 0))).2.waiter =
          .sleeping .forConsumer true :=
  waitAndStartConsuming_woken_by_consumer ⟨_, rfl⟩ rfl

/-- The task asleep in `WaitWhileEmpty` is woken by the first push: after a producer pushes, a
producer that owes the wakeup calls `NotifyAsyncConsumer`, and the task is awake. -/
theorem waitWhileEmpty_woken_by_next_push (hs : Reachable s)
    (hw : s.waiter = .sleeping .whileEmpty false) {x : α} (hx : x ∉ s.pushed) :
    (Machine.run step s [.pushAndTryStartConsuming x, .notifier]).2.waiter =
      .sleeping .whileEmpty true := by
  cases hs.inv.config with
  | asleep xs =>
    simp only [Machine.run_cons, Machine.run_nil, step, if_neg hx]
    cases xs with
    | nil =>
      -- the push lands behind `while_empty_notifier_node_` and its producer owes the wakeup
      rfl
    | cons y ys =>
      -- a producer already owes the wakeup
      rw [pushAndTryStartConsuming_of_back (List.getLast?_cons_cons) (by simp) (by simp)]
      rfl
  | waiter w xs hact =>
    subst hw
    simp [Waiter.active] at hact
  | _ => cases hw

/-- The task holds the consumer, finds the queue empty and sleeps; then a producer pushes. -/
theorem waitWhileEmpty_woken_by_next_push_after_wait :
    (Machine.run step (Machine.run step (init : State ℕ) [.waitAndStartConsuming, .waiter,
        .waiter, .waitWhileEmpty]).2 [.pushAndTryStartConsuming 1, .notifier]).2.waiter =
      .sleeping .whileEmpty true :=
  waitWhileEmpty_woken_by_next_push ⟨_, rfl⟩ rfl (by decide)

end AsyncFlatCombiningQueue

end Engine

end Userver
