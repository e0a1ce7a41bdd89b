import Mathlib.Data.List.Basic
import Userver.Engine.AsyncFlatCombiningQueue

/-!
# `AsyncFlatCombiningQueue`: the configurations of every interleaving

The right to consume `queue_` is a token: `consumer_node_` at the back of the queue holds it for
whoever pushes next, a producer that pushed right behind that node holds it while it runs
`ConsumeAndStop`, and the waiting task holds it from its wakeup (or from finding
`consumer_node_` behind its own node) until its `ConsumeAndStop` returns.  The queue's own nodes
stand where the token's moves put them.  `Config` lists the configurations that follows from,
one constructor each, with the state written out in full: who holds the token, where the queue's
own nodes stand among the users' nodes, and the flags.  `Inv` adds the accounting of the users'
nodes: each one pushed is consumed or still in `queue_`, in the order of the pushes.

`inv_step` shows that every step from an invariant state passes its assertions and leads to an
invariant state, so (`Reachable.inv`) the invariant holds in every state of every interleaving.
-/

namespace Userver

namespace Engine

namespace AsyncFlatCombiningQueue

variable {α : Type}

/-- A user's node, as against the queue's own. -/
def Node.isUser : Node α → Bool
  | .user _ => true
  | _ => false

@[simp] theorem Node.isUser_user (x : α) : (Node.user x).isUser = true := rfl
@[simp] theorem Node.isUser_consumerNode : (Node.consumerNode : Node α).isUser = false := rfl
@[simp] theorem Node.isUser_whileEmptyNotifierNode :
    (Node.whileEmptyNotifierNode : Node α).isUser = false := rfl
@[simp] theorem Node.isUser_startConsumingNotifierNode :
    (Node.startConsumingNotifierNode : Node α).isUser = false := rfl

@[simp] theorem filter_isUser_map_user (xs : List α) :
    (xs.map Node.user).filter Node.isUser = xs.map Node.user := by
  rw [List.filter_map]
  congr 1
  exact List.filter_eq_self.mpr fun _ _ => rfl

/-- `queue_` as a producer running `ConsumeAndStop` from `l` finds it: the nodes `q`, with
`consumer_node_` still in front of them until the producer's first pop. -/
def Behind (l : Loop) (q Q : List (Node α)) : Prop :=
  Q = q ∨ (l = .popping ∧ q ≠ [] ∧ Q = .consumerNode :: q)

namespace Behind

variable {l : Loop} {q Q : List (Node α)}

theorem self (l : Loop) (q : List (Node α)) : Behind l q q := .inl rfl

/-- `consumer_node_` in front changes nothing at the back. -/
theorem getLast?_eq (h : Behind l q Q) : Q.getLast? = q.getLast? := by
  rcases h with rfl | ⟨-, hq, rfl⟩
  · rfl
  · obtain ⟨n, q', rfl⟩ := List.exists_cons_of_ne_nil hq
    rfl

theorem push (h : Behind l q Q) (n : Node α) : Behind l (q ++ [n]) (Q ++ [n]) := by
  rcases h with rfl | ⟨hl, hq, rfl⟩
  · exact .inl rfl
  · exact .inr ⟨hl, by simp, rfl⟩

theorem filter_isUser (h : Behind l q Q) : Q.filter Node.isUser = q.filter Node.isUser := by
  rcases h with rfl | ⟨-, -, rfl⟩
  · rfl
  · simp [Node.isUser]

end Behind

theorem getLast?_ne_of_not_mem {q : List (Node α)} {n : Node α} (h : n ∉ q) :
    q.getLast? ≠ some n :=
  fun e => h (List.mem_of_getLast? e)

/-- The positions of the waiting task in which it holds its `Consumer` and is in no wait. -/
def Waiter.active : Waiter → Bool
  | .holding | .tryPop | .consuming _ => true
  | _ => false

/-- The configurations of the queue.  Each constructor is a state, with its fields in the order
of `State`: `queue_`, `should_pass_consumer_to_waiter_`, `should_pop_notifier_node_`,
`has_consumer_`, the producers in `ConsumeAndStop`, the producers owing a wakeup, the waiting
task, and the history.  The users' nodes in `queue_` are `xs` (and `ys`), oldest first. -/
inductive Config : State α → Prop
  /-- Nobody consumes: `consumer_node_` alone waits for the next producer. -/
  | free {ps cs} : Config ⟨[.consumerNode], false, false, false, [], 0, .idle, ps, cs⟩
  /-- A producer consumes, and the task does not wait for it. -/
  | producer (l : Loop) (xs : List α) (Q : List (Node α)) {ps cs} :
      Behind l (xs.map .user) Q → Config ⟨Q, false, false, true, [l], 0, .idle, ps, cs⟩
  /-- A producer consumes, and the task waits behind `start_consuming_notifier_node_`. -/
  | producerWaited (l : Loop) (xs ys : List α) (Q : List (Node α)) {ps cs} :
      Behind l (xs.map .user ++ .startConsumingNotifierNode :: ys.map .user) Q →
      Config ⟨Q, false, false, true, [l], 0, .sleeping .forConsumer false, ps, cs⟩
  /-- The producer has popped `start_consuming_notifier_node_` and is about to hand over. -/
  | handingOver (xs : List α) {ps cs} :
      Config ⟨xs.map .user, true, false, true, [.stopping], 0, .sleeping .forConsumer false,
        ps, cs⟩
  /-- The task found `consumer_node_` right in front of its node, and pops both. -/
  | popConsumerNode (xs : List α) {ps cs} :
      Config ⟨.consumerNode :: .startConsumingNotifierNode :: xs.map .user, false, false, false,
        [], 0, .popConsumerNode, ps, cs⟩
  | popStartNode (xs : List α) {ps cs} :
      Config ⟨.startConsumingNotifierNode :: xs.map .user, false, false, false, [], 0,
        .popStartNode, ps, cs⟩
  /-- The producer has handed over and woken the task. -/
  | woken (xs : List α) {ps cs} :
      Config ⟨xs.map .user, false, false, false, [], 0, .sleeping .forConsumer true, ps, cs⟩
  /-- The task holds its `Consumer`. -/
  | waiter (w : Waiter) (xs : List α) {ps cs} : w.active →
      Config ⟨xs.map .user, false, false, true, [], 0, w, ps, cs⟩
  /-- The task sleeps in `WaitWhileEmpty`; the first producer behind its node owes the
  wakeup. -/
  | asleep (xs : List α) {ps cs} :
      Config ⟨.whileEmptyNotifierNode :: xs.map .user, false, true, true, [],
        if xs = [] then 0 else 1, .sleeping .whileEmpty false, ps, cs⟩
  | wokenWhileEmpty (xs : List α) {ps cs} : xs ≠ [] →
      Config ⟨.whileEmptyNotifierNode :: xs.map .user, false, true, true, [], 0,
        .sleeping .whileEmpty true, ps, cs⟩
  | popNotifierNode (xs : List α) {ps cs} : xs ≠ [] →
      Config ⟨.whileEmptyNotifierNode :: xs.map .user, false, false, true, [], 0,
        .popNotifierNode, ps, cs⟩

/-- The invariant: a configuration, and the users' nodes accounted for. -/
structure Inv (s : State α) : Prop where
  /-- Each user pushes its node once. -/
  pushed_nodup : s.pushed.Nodup
  /-- The users' nodes consumed, then those still in `queue_`, are the nodes pushed. -/
  accounting : s.consumed ++ s.queue.filter Node.isUser = s.pushed.map .user
  config : Config s

theorem inv_init : Inv (init : State α) where
  pushed_nodup := List.nodup_nil
  accounting := rfl
  config := .free

variable {s : State α}

/-- The users' nodes in `queue_` are distinct: they are the tail of the pushed ones. -/
theorem Inv.nodup_users (h : Inv s) : (s.queue.filter Node.isUser).Nodup := by
  have hp : (s.pushed.map Node.user).Nodup :=
    List.Pairwise.map Node.user (fun _ _ hne he => hne (Node.user.inj he)) h.pushed_nodup
  rw [← h.accounting] at hp
  exact (List.nodup_append.mp hp).2.1

/-! ## The consumer's loop -/

section ConsumeAndStop

variable {q : List (Node α)}

theorem doTryPop_nil (hq : s.queue = []) : doTryPop s = (.null, s) := by
  cases s
  subst hq
  rfl

theorem doTryPop_user {x : α} (hq : s.queue = .user x :: q) :
    doTryPop s = (.node (.user x), { s with queue := q }) := by
  simp [doTryPop, tryPopBlocking, hq]

/-- `DoTryPop` goes round its loop past `consumer_node_`. -/
theorem doTryPop_consumerNode (hq : s.queue = .consumerNode :: q) :
    doTryPop s = (.retry, { s with queue := q }) := by
  simp [doTryPop, tryPopBlocking, hq]

/-- `DoTryPop` finds the waiting task's node: the consumer is to hand over. -/
theorem doTryPop_start (hq : s.queue = .startConsumingNotifierNode :: q) :
    doTryPop s = (.null, { s with queue := q, shouldPassConsumerToWaiter := true }) := by
  simp [doTryPop, tryPopBlocking, hq]

theorem consumeAndStop_popping_nil (hq : s.queue = []) :
    consumeAndStop s .popping = (true, s, some .stopping) := by
  simp [consumeAndStop, doTryPop_nil hq]

theorem consumeAndStop_popping_user {x : α} (hq : s.queue = .user x :: q) :
    consumeAndStop s .popping =
      (true, { s with queue := q, consumed := s.consumed ++ [.user x] }, some .popping) := by
  simp [consumeAndStop, doTryPop_user hq]

theorem consumeAndStop_popping_consumerNode (hq : s.queue = .consumerNode :: q) :
    consumeAndStop s .popping = (true, { s with queue := q }, some .popping) := by
  simp [consumeAndStop, doTryPop_consumerNode hq]

theorem consumeAndStop_popping_start (hq : s.queue = .startConsumingNotifierNode :: q) :
    consumeAndStop s .popping =
      (true, { s with queue := q, shouldPassConsumerToWaiter := true }, some .stopping) := by
  simp [consumeAndStop, doTryPop_start hq]

/-- `TryStopConsuming` hands over to the task that waits for the consumer. -/
theorem consumeAndStop_stopping_pass {w : Wait} (hp : s.shouldPassConsumerToWaiter = true)
    (hw : s.waiter = .sleeping w false) :
    consumeAndStop s .stopping =
      (s.hasConsumer,
        { s with
          hasConsumer := false, shouldPassConsumerToWaiter := false, waiter := .sleeping w true },
        none) := by
  simp [consumeAndStop, doTryStopConsuming, notifyAsyncConsumer, hp, hw]

/-- `TryStopConsuming` finds the queue empty and puts `consumer_node_` back. -/
theorem consumeAndStop_stopping_nil (hp : s.shouldPassConsumerToWaiter = false)
    (hq : s.queue = []) :
    consumeAndStop s .stopping =
      (s.hasConsumer, { s with hasConsumer := false, queue := [.consumerNode] }, none) := by
  simp [consumeAndStop, doTryStopConsuming, pushIfEmpty, hp, hq]

/-- `TryStopConsuming` finds a node in the queue, and the consumer goes on. -/
theorem consumeAndStop_stopping_cons {n : Node α} (hp : s.shouldPassConsumerToWaiter = false)
    (hq : s.queue = n :: q) :
    consumeAndStop s .stopping = (s.hasConsumer, { s with hasConsumer := true }, some .popping) := by
  simp [consumeAndStop, doTryStopConsuming, pushIfEmpty, hp, hq]

end ConsumeAndStop

/-- The step of the one producer in `ConsumeAndStop`. -/
theorem consumerStep_zero {l : Loop} (hs : s.consumers = [l]) :
    consumerStep s 0 =
      ((consumeAndStop s l).1,
        { (consumeAndStop s l).2.1 with consumers := (consumeAndStop s l).2.2.toList }) := by
  simp only [consumerStep, hs, List.getElem?_cons_zero]
  cases (consumeAndStop s l).2.2 <;> rfl

/-- Only one producer runs `ConsumeAndStop` at a time. -/
theorem Config.consumers_length_le (hc : Config s) : s.consumers.length ≤ 1 := by
  cases hc <;> simp

theorem consumerStep_succ (hs : s.consumers.length ≤ 1) (i : Nat) :
    consumerStep s (i + 1) = (true, s) := by
  unfold consumerStep
  rw [List.getElem?_eq_none (by omega)]

/-! ## The producers in `ConsumeAndStop` -/

theorem inv_consumerStep (h : Inv s) (i : Nat) :
    (consumerStep s i).1 = true ∧ Inv (consumerStep s i).2 := by
  cases i with
  | succ i =>
    rw [consumerStep_succ h.config.consumers_length_le]
    exact ⟨rfl, h⟩
  | zero =>
    have hc := h.config
    have hnd := h.pushed_nodup
    have hacc := h.accounting
    cases hc with
    | producer l xs Q hQ =>
      rw [consumerStep_zero rfl]
      rcases hQ with rfl | ⟨rfl, -, rfl⟩
      · cases l with
        | popping =>
          cases xs with
          | nil =>
            rw [consumeAndStop_popping_nil rfl]
            exact ⟨rfl, hnd, hacc, .producer .stopping [] _ (.self _ _)⟩
          | cons y ys =>
            rw [consumeAndStop_popping_user rfl]
            exact ⟨rfl, hnd, by simpa [List.filter_cons] using hacc, .producer .popping ys _ (.self _ _)⟩
        | stopping =>
          cases xs with
          | nil =>
            -- the queue is empty: `consumer_node_` goes back and the producer leaves
            rw [consumeAndStop_stopping_nil rfl rfl]
            exact ⟨rfl, hnd, by simpa [List.filter_cons] using hacc, .free⟩
          | cons y ys =>
            rw [consumeAndStop_stopping_cons rfl rfl]
            exact ⟨rfl, hnd, hacc, .producer .popping (y :: ys) _ (.self _ _)⟩
      · -- the first pop takes `consumer_node_` out from in front of the producer's node
        rw [consumeAndStop_popping_consumerNode rfl]
        exact ⟨rfl, hnd, by simpa [List.filter_cons] using hacc, .producer .popping xs _ (.self _ _)⟩
    | producerWaited l xs ys Q hQ =>
      rw [consumerStep_zero rfl]
      rcases hQ with rfl | ⟨rfl, -, rfl⟩
      · cases l with
        | popping =>
          cases xs with
          | nil =>
            -- the producer pops the task's node and is to hand over
            rw [consumeAndStop_popping_start (q := ys.map Node.user) rfl]
            exact ⟨rfl, hnd, by simpa [List.filter_cons] using hacc, .handingOver ys⟩
          | cons y xs =>
            rw [consumeAndStop_popping_user rfl]
            exact ⟨rfl, hnd, by simpa [List.filter_cons] using hacc,
              .producerWaited .popping xs ys _ (.self _ _)⟩
        | stopping =>
          rw [consumeAndStop_stopping_cons rfl (List.cons_head_tail (by simp)).symm]
          exact ⟨rfl, hnd, hacc, .producerWaited .popping xs ys _ (.self _ _)⟩
      · rw [consumeAndStop_popping_consumerNode rfl]
        exact ⟨rfl, hnd, by simpa [List.filter_cons] using hacc,
          .producerWaited .popping xs ys _ (.self _ _)⟩
    | handingOver xs =>
      rw [consumerStep_zero rfl, consumeAndStop_stopping_pass rfl rfl]
      exact ⟨rfl, hnd, hacc, .woken xs⟩
    -- the other configurations have no producer in `ConsumeAndStop`
    | _ => exact ⟨rfl, h⟩

/-! ## The producers that owe a wakeup -/

theorem inv_notifierStep (h : Inv s) : (notifierStep s).1 = true ∧ Inv (notifierStep s).2 := by
  have hc := h.config
  cases hc with
  | asleep xs =>
    cases xs with
    | nil => exact ⟨rfl, h⟩
    | cons y ys =>
      -- the producer behind `while_empty_notifier_node_` wakes the task
      exact ⟨rfl, h.pushed_nodup, h.accounting, .wokenWhileEmpty (y :: ys) (List.cons_ne_nil _ _)⟩
  -- in the other configurations no producer owes a wakeup
  | _ => exact ⟨rfl, h⟩

/-! ## The waiting task -/

section Waiter

variable {q : List (Node α)}

theorem waiterTryPop_nil (hq : s.queue = []) :
    waiterTryPop s = (true, { s with waiter := .holding }) := by
  simp [waiterTryPop, doTryPop_nil hq]

theorem waiterTryPop_user {x : α} (hq : s.queue = .user x :: q) :
    waiterTryPop s =
      (true, { s with queue := q, consumed := s.consumed ++ [.user x], waiter := .holding }) := by
  simp [waiterTryPop, doTryPop_user hq]

/-- `TryStartWaitingWhileEmpty` finds the queue empty and the task goes to sleep. -/
theorem tryStartWaitingWhileEmpty_nil (hq : s.queue = []) (hs : s.shouldPopNotifierNode = false) :
    tryStartWaitingWhileEmpty s =
      (true, { s with queue := [.whileEmptyNotifierNode], shouldPopNotifierNode := true,
                      waiter := .sleeping .whileEmpty false }) := by
  simp [tryStartWaitingWhileEmpty, pushIfEmpty, hq, hs]

/-- `TryStartWaitingWhileEmpty` finds a node in the queue: the early wakeup. -/
theorem tryStartWaitingWhileEmpty_cons {n : Node α} (hq : s.queue = n :: q)
    (hs : s.shouldPopNotifierNode = false) :
    tryStartWaitingWhileEmpty s = (true, { s with waiter := .holding }) := by
  cases s
  subst hq hs
  rfl

theorem inv_tryStartWaitingWhileEmpty {xs ps : List α} {cs : List (Node α)}
    (h : Inv (⟨xs.map .user, false, false, true, [], 0, .holding, ps, cs⟩ : State α)) :
    (tryStartWaitingWhileEmpty (⟨xs.map .user, false, false, true, [], 0, .holding, ps, cs⟩ :
        State α)).1 = true ∧
      Inv (tryStartWaitingWhileEmpty (⟨xs.map .user, false, false, true, [], 0, .holding, ps, cs⟩ :
        State α)).2 := by
  cases xs with
  | nil =>
    rw [tryStartWaitingWhileEmpty_nil rfl rfl]
    exact ⟨rfl, h.pushed_nodup, by simpa using h.accounting, .asleep []⟩
  | cons y ys =>
    rw [tryStartWaitingWhileEmpty_cons rfl rfl]
    exact ⟨rfl, h⟩

/-- The task's `TryPop`, while it holds its `Consumer` and the queue holds users' nodes only. -/
theorem inv_waiterTryPop {w : Waiter} {xs ps : List α} {cs : List (Node α)}
    (h : Inv (⟨xs.map .user, false, false, true, [], 0, w, ps, cs⟩ : State α)) :
    (waiterTryPop (⟨xs.map .user, false, false, true, [], 0, w, ps, cs⟩ : State α)).1 = true ∧
      Inv (waiterTryPop (⟨xs.map .user, false, false, true, [], 0, w, ps, cs⟩ : State α)).2 := by
  cases xs with
  | nil =>
    rw [waiterTryPop_nil rfl]
    exact ⟨rfl, h.pushed_nodup, h.accounting, .waiter .holding [] rfl⟩
  | cons y ys =>
    rw [waiterTryPop_user rfl]
    exact ⟨rfl, h.pushed_nodup, by simpa [List.filter_cons] using h.accounting,
      .waiter .holding ys rfl⟩

end Waiter

variable [DecidableEq α]

/-! ## The producers -/

/-- Behind a node other than `while_empty_notifier_node_` and `consumer_node_`, or in an empty
queue, a push is only a push.  The last node of `queue_` is given as the last of a list `q`
that holds neither. -/
theorem pushAndTryStartConsuming_of_back {q : List (Node α)} {x : α}
    (hq : s.queue.getLast? = q.getLast?) (hw : .whileEmptyNotifierNode ∉ q)
    (hc : .consumerNode ∉ q) :
    pushAndTryStartConsuming s x =
      (true, { s with queue := s.queue ++ [.user x], pushed := s.pushed ++ [x] }) := by
  simp [pushAndTryStartConsuming, getBackAndPush, hq, getLast?_ne_of_not_mem hw,
    getLast?_ne_of_not_mem hc]

theorem config_push (hc : Config s) {x : α} :
    (pushAndTryStartConsuming s x).1 = true ∧ Config (pushAndTryStartConsuming s x).2 := by
  cases hc with
  | free =>
    -- the producer finds `consumer_node_` and becomes the consumer
    exact ⟨rfl, .producer .popping [x] _ (.inr ⟨rfl, by simp, rfl⟩)⟩
  | producer l xs Q h =>
    rw [pushAndTryStartConsuming_of_back h.getLast?_eq (by simp) (by simp)]
    exact ⟨rfl, .producer l (xs ++ [x]) _ (by simpa using h.push (.user x))⟩
  | producerWaited l xs ys Q h =>
    rw [pushAndTryStartConsuming_of_back h.getLast?_eq (by simp) (by simp)]
    exact ⟨rfl, .producerWaited l xs (ys ++ [x]) _ (by simpa using h.push (.user x))⟩
  | handingOver xs =>
    rw [pushAndTryStartConsuming_of_back rfl (by simp) (by simp)]
    exact ⟨rfl, by simpa using Config.handingOver (xs ++ [x])⟩
  | popConsumerNode xs =>
    rw [pushAndTryStartConsuming_of_back (List.getLast?_cons_cons) (by simp) (by simp)]
    exact ⟨rfl, by simpa using Config.popConsumerNode (xs ++ [x])⟩
  | popStartNode xs =>
    rw [pushAndTryStartConsuming_of_back rfl (by simp) (by simp)]
    exact ⟨rfl, by simpa using Config.popStartNode (xs ++ [x])⟩
  | woken xs =>
    rw [pushAndTryStartConsuming_of_back rfl (by simp) (by simp)]
    exact ⟨rfl, by simpa using Config.woken (xs ++ [x])⟩
  | waiter w xs hw =>
    rw [pushAndTryStartConsuming_of_back rfl (by simp) (by simp)]
    exact ⟨rfl, by simpa using Config.waiter w (xs ++ [x]) hw⟩
  | asleep xs =>
    cases xs with
    | nil =>
      -- the first push behind `while_empty_notifier_node_` owes the wakeup
      exact ⟨rfl, .asleep [x]⟩
    | cons y ys =>
      rw [pushAndTryStartConsuming_of_back (List.getLast?_cons_cons) (by simp) (by simp)]
      exact ⟨rfl, by simpa using Config.asleep (y :: ys ++ [x])⟩
  | wokenWhileEmpty xs hne =>
    obtain ⟨y, ys, rfl⟩ := List.exists_cons_of_ne_nil hne
    rw [pushAndTryStartConsuming_of_back (List.getLast?_cons_cons) (by simp) (by simp)]
    exact ⟨rfl, by simpa using Config.wokenWhileEmpty (y :: ys ++ [x]) (by simp)⟩
  | popNotifierNode xs hne =>
    obtain ⟨y, ys, rfl⟩ := List.exists_cons_of_ne_nil hne
    rw [pushAndTryStartConsuming_of_back (List.getLast?_cons_cons) (by simp) (by simp)]
    exact ⟨rfl, by simpa using Config.popNotifierNode (y :: ys ++ [x]) (by simp)⟩

section Push

variable {x : α}

theorem queue_pushAndTryStartConsuming :
    (pushAndTryStartConsuming s x).2.queue = s.queue ++ [.user x] := by
  unfold pushAndTryStartConsuming
  dsimp only
  split_ifs <;> rfl

theorem pushed_pushAndTryStartConsuming :
    (pushAndTryStartConsuming s x).2.pushed = s.pushed ++ [x] := by
  unfold pushAndTryStartConsuming
  dsimp only
  split_ifs <;> rfl

theorem consumed_pushAndTryStartConsuming :
    (pushAndTryStartConsuming s x).2.consumed = s.consumed := by
  unfold pushAndTryStartConsuming
  dsimp only
  split_ifs <;> rfl

theorem inv_push (h : Inv s) (hx : x ∉ s.pushed) :
    (pushAndTryStartConsuming s x).1 = true ∧ Inv (pushAndTryStartConsuming s x).2 := by
  obtain ⟨hok, hc⟩ := config_push h.config (x := x)
  refine ⟨hok, ⟨?_, ?_, hc⟩⟩
  · rw [pushed_pushAndTryStartConsuming]
    refine List.nodup_append.mpr ⟨h.pushed_nodup, by simp, fun a ha b hb => ?_⟩
    rw [List.mem_singleton] at hb
    exact hb ▸ ne_of_mem_of_not_mem ha hx
  · -- the node goes in at the back of `queue_` and of the history
    rw [queue_pushAndTryStartConsuming, pushed_pushAndTryStartConsuming,
      consumed_pushAndTryStartConsuming]
    simp [← h.accounting, Node.isUser]

end Push

/-! ## The waiting task's calls -/

/-- The step of the task in `ConsumeAndStop`. -/
theorem waiterStep_consuming {l : Loop} (hw : s.waiter = .consuming l) :
    waiterStep s =
      ((consumeAndStop s l).1,
        { (consumeAndStop s l).2.1 with
          waiter := ((consumeAndStop s l).2.2.map .consuming).getD .idle }) := by
  simp only [waiterStep, hw]
  cases (consumeAndStop s l).2.2 <;> rfl

/-- The task's `ConsumeAndStop`, while the queue holds users' nodes only. -/
theorem inv_waiterConsuming {l : Loop} {xs ps : List α} {cs : List (Node α)}
    (h : Inv (⟨xs.map .user, false, false, true, [], 0, .consuming l, ps, cs⟩ : State α)) :
    (waiterStep (⟨xs.map .user, false, false, true, [], 0, .consuming l, ps, cs⟩ :
        State α)).1 = true ∧
      Inv (waiterStep (⟨xs.map .user, false, false, true, [], 0, .consuming l, ps, cs⟩ :
        State α)).2 := by
  rw [waiterStep_consuming rfl]
  cases l with
  | popping =>
    cases xs with
    | nil =>
      rw [consumeAndStop_popping_nil rfl]
      exact ⟨rfl, h.pushed_nodup, h.accounting, .waiter (.consuming .stopping) [] rfl⟩
    | cons y ys =>
      rw [consumeAndStop_popping_user rfl]
      exact ⟨rfl, h.pushed_nodup, by simpa [List.filter_cons] using h.accounting,
        .waiter (.consuming .popping) ys rfl⟩
  | stopping =>
    cases xs with
    | nil =>
      -- the queue is empty: `consumer_node_` goes back and the task leaves
      rw [consumeAndStop_stopping_nil rfl rfl]
      exact ⟨rfl, h.pushed_nodup, by simpa using h.accounting, .free⟩
    | cons y ys =>
      rw [consumeAndStop_stopping_cons rfl rfl]
      exact ⟨rfl, h.pushed_nodup, h.accounting, .waiter (.consuming .popping) (y :: ys) rfl⟩

/-- Behind `consumer_node_` the task is the consumer at once. -/
theorem tryStartWaitingForConsumer_of_consumerNode (hq : s.queue.getLast? = some .consumerNode) :
    tryStartWaitingForConsumer s =
      (true, { s with queue := s.queue ++ [.startConsumingNotifierNode],
                      waiter := .popConsumerNode }) := by
  simp [tryStartWaitingForConsumer, getBackAndPush, hq]

/-- Behind a user's node, or in an empty queue, the task goes to sleep. -/
theorem tryStartWaitingForConsumer_of_users {xs : List α}
    (hq : s.queue.getLast? = (xs.map .user).getLast?) :
    tryStartWaitingForConsumer s =
      (true, { s with queue := s.queue ++ [.startConsumingNotifierNode],
                      waiter := .sleeping .forConsumer false }) := by
  simp [tryStartWaitingForConsumer, getBackAndPush, hq, List.getLast?_map]

theorem inv_tryStartWaitingForConsumer (h : Inv s) (hw : s.waiter = .idle) :
    (tryStartWaitingForConsumer s).1 = true ∧ Inv (tryStartWaitingForConsumer s).2 := by
  have hc := h.config
  cases hc with
  | free =>
    rw [tryStartWaitingForConsumer_of_consumerNode rfl]
    exact ⟨rfl, h.pushed_nodup, by simpa using h.accounting, .popConsumerNode []⟩
  | producer l xs Q hQ =>
    rw [tryStartWaitingForConsumer_of_users hQ.getLast?_eq]
    refine ⟨rfl, h.pushed_nodup, by simpa using h.accounting, ?_⟩
    simpa using Config.producerWaited l xs [] _ (hQ.push .startConsumingNotifierNode)
  | waiter w xs hact =>
    subst hw
    exact absurd hact (by decide)
  | _ => cases hw

theorem inv_waiterStep (h : Inv s) : (waiterStep s).1 = true ∧ Inv (waiterStep s).2 := by
  have hc := h.config
  cases hc with
  | popConsumerNode xs =>
    exact ⟨rfl, h.pushed_nodup, by simpa [waiterStep, tryPopBlocking] using h.accounting,
      .popStartNode xs⟩
  | popStartNode xs =>
    -- the task has both nodes out of the queue and constructs its `Consumer`
    exact ⟨rfl, h.pushed_nodup, by simpa [waiterStep, tryPopBlocking] using h.accounting,
      .waiter .holding xs rfl⟩
  | woken xs => exact ⟨rfl, h.pushed_nodup, h.accounting, .waiter .holding xs rfl⟩
  | wokenWhileEmpty xs hne => exact ⟨rfl, h.pushed_nodup, h.accounting, .popNotifierNode xs hne⟩
  | popNotifierNode xs hne =>
    exact ⟨rfl, h.pushed_nodup, by simpa [waiterStep, tryPopBlocking] using h.accounting,
      .waiter .holding xs rfl⟩
  | waiter w xs hw =>
    cases w with
    | tryPop => exact inv_waiterTryPop h
    | consuming l => exact inv_waiterConsuming h
    | holding => exact ⟨rfl, h⟩
    | _ => simp [Waiter.active] at hw
  -- asleep, or without a call in progress
  | _ => exact ⟨rfl, h⟩

/-- Every step from an invariant state passes its assertions and keeps the invariant. -/
theorem inv_step (h : Inv s) (a : Action α) : (step s a).1 = true ∧ Inv (step s a).2 := by
  cases a with
  | pushAndTryStartConsuming x =>
    dsimp only [step]
    split_ifs with hx
    · exact ⟨rfl, h⟩
    · exact inv_push h hx
  | notifier => exact inv_notifierStep h
  | consumer i => exact inv_consumerStep h i
  | waitAndStartConsuming =>
    dsimp only [step]
    split_ifs with hw
    · exact inv_tryStartWaitingForConsumer h hw
    · exact ⟨rfl, h⟩
  | tryPop =>
    dsimp only [step]
    split_ifs with hw
    · have hc := h.config
      cases hc with
      | waiter w xs _ =>
        subst hw
        exact inv_waiterTryPop h
      | _ => cases hw
    · exact ⟨rfl, h⟩
  | waitWhileEmpty =>
    dsimp only [step]
    split_ifs with hw
    · have hc := h.config
      cases hc with
      | waiter w xs _ =>
        subst hw
        exact inv_tryStartWaitingWhileEmpty h
      | _ => cases hw
    · exact ⟨rfl, h⟩
  | consumeAndStop =>
    dsimp only [step]
    split_ifs with hw
    · have hc := h.config
      cases hc with
      | waiter w xs _ => exact ⟨rfl, h.pushed_nodup, h.accounting, .waiter (.consuming .popping) xs rfl⟩
      | _ => cases hw
    · exact ⟨rfl, h⟩
  | waiter => exact inv_waiterStep h

/-- The invariant holds in every state of every interleaving. -/
theorem Reachable.inv {s : State α} (hs : Reachable s) : Inv s :=
  Machine.Reachable.invariant Inv inv_init (fun _ a h => (inv_step h a).2) hs

end AsyncFlatCombiningQueue

end Engine

end Userver
