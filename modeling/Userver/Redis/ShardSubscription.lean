import Mathlib

/-!
# The shard subscription state machine

`shard_subscriber::Fsm` (`shard_subscription_fsm.cpp`) keeps one channel of a Redis shard
subscribed.  It reacts to the driver's replies and to the subscription storage's requests with
the six handlers `HandleSubscribing` .. `HandleUnsubscribed`, and asks the storage to send
commands by pending `Action`s.  Each handler first checks the fields its state should have, and
drops the event with a "Buggy fsm?" error when they do not hold.

* `reachable_inv`: from the default constructor, over every sequence of events whose `OK`
  replies and rebalance requests name a concrete server, every state has the fields its handler
  checks, and the two servers of a rebalancing state differ; so no event is ever dropped by a
  failed check (`guardPasses_of_inv`).

The subscription time point and the shard number are left out: nothing here reads them.
-/

namespace Userver

namespace Redis

/-- `ServerId`: the default one, with id `-1`, is "any server". -/
structure ServerId where
  id : Int := -1
  deriving DecidableEq, Repr

/-- `ServerId::IsAny`. -/
def ServerId.isAny (s : ServerId) : Bool := s.id = -1

@[simp] theorem ServerId.isAny_default : ServerId.isAny {} = true := rfl

/-- `Event::Type`. -/
inductive EventType where
  | kSubscribeRequested
  | kSubscribeReplyOk
  | kSubscribeReplyError
  | kRebalanceRequested
  | kUnsubscribeRequested
  deriving DecidableEq, Repr

/-- `Event`. -/
structure Event where
  type : EventType
  serverId : ServerId
  deriving DecidableEq, Repr

/-- `Action::Type`. -/
inductive ActionType where
  | kSubscribe
  | kUnsubscribe
  | kDeleteFsm
  deriving DecidableEq, Repr

/-- `Action`. -/
structure Action where
  type : ActionType
  serverId : ServerId := {}
  deriving DecidableEq, Repr

/-- `Fsm::State`. -/
inductive State where
  | kSubscribing
  | kSubscribed
  | kUnsubscribing
  | kRebalancingWaitSubscribe
  | kRebalancingWaitUnsubscribe
  | kUnsubscribed
  deriving DecidableEq, Repr

/-- The fields of `Fsm` that its handlers read and write. -/
structure Fsm where
  state : State := .kSubscribing
  needSubscription : Bool := true
  /-- We are subscribed to it, or sent a subscribe request to it. -/
  currentServerId : ServerId
  rebalancingServerId : ServerId := {}
  pendingActions : List Action := []
  deriving DecidableEq, Repr

namespace Fsm

/-- `EmitAction`. -/
def emitAction (f : Fsm) (action : Action) : Fsm :=
  { f with pendingActions := f.pendingActions ++ [action] }

/-- `ChangeState`. -/
def changeState (f : Fsm) (newState : State) : Fsm := { f with state := newState }

/-- `SetNeedSubscription`. -/
def setNeedSubscription (f : Fsm) (needSubscription : Bool) : Fsm :=
  { f with needSubscription }

@[simp] theorem emitAction_state (f : Fsm) (a : Action) : (f.emitAction a).state = f.state := rfl
@[simp] theorem emitAction_needSubscription (f : Fsm) (a : Action) :
    (f.emitAction a).needSubscription = f.needSubscription := rfl
@[simp] theorem emitAction_currentServerId (f : Fsm) (a : Action) :
    (f.emitAction a).currentServerId = f.currentServerId := rfl
@[simp] theorem emitAction_rebalancingServerId (f : Fsm) (a : Action) :
    (f.emitAction a).rebalancingServerId = f.rebalancingServerId := rfl
@[simp] theorem emitAction_pendingActions (f : Fsm) (a : Action) :
    (f.emitAction a).pendingActions = f.pendingActions ++ [a] := rfl

@[simp] theorem changeState_state (f : Fsm) (s : State) : (f.changeState s).state = s := rfl
@[simp] theorem changeState_needSubscription (f : Fsm) (s : State) :
    (f.changeState s).needSubscription = f.needSubscription := rfl
@[simp] theorem changeState_currentServerId (f : Fsm) (s : State) :
    (f.changeState s).currentServerId = f.currentServerId := rfl
@[simp] theorem changeState_rebalancingServerId (f : Fsm) (s : State) :
    (f.changeState s).rebalancingServerId = f.rebalancingServerId := rfl
@[simp] theorem changeState_pendingActions (f : Fsm) (s : State) :
    (f.changeState s).pendingActions = f.pendingActions := rfl

@[simp] theorem setNeedSubscription_state (f : Fsm) (b : Bool) :
    (f.setNeedSubscription b).state = f.state := rfl
@[simp] theorem setNeedSubscription_needSubscription (f : Fsm) (b : Bool) :
    (f.setNeedSubscription b).needSubscription = b := rfl
@[simp] theorem setNeedSubscription_currentServerId (f : Fsm) (b : Bool) :
    (f.setNeedSubscription b).currentServerId = f.currentServerId := rfl
@[simp] theorem setNeedSubscription_rebalancingServerId (f : Fsm) (b : Bool) :
    (f.setNeedSubscription b).rebalancingServerId = f.rebalancingServerId := rfl
@[simp] theorem setNeedSubscription_pendingActions (f : Fsm) (b : Bool) :
    (f.setNeedSubscription b).pendingActions = f.pendingActions := rfl

/-- `Fsm(shard, server_id)`: subscribe to `server_id`, any server by default. -/
def init (serverId : ServerId) : Fsm :=
  ({ currentServerId := serverId } : Fsm).emitAction ⟨.kSubscribe, serverId⟩

/-- `HandleOkReplyFromOtherServerId`: unsubscribe from it. -/
def handleOkReplyFromOtherServerId (f : Fsm) (otherServerId : ServerId) : Fsm :=
  f.emitAction ⟨.kUnsubscribe, otherServerId⟩

/-- `HandleErrorReplyFromOtherServerId`: ignore it. -/
def handleErrorReplyFromOtherServerId (f : Fsm) (_otherServerId : ServerId) : Fsm := f

/-- `HandleSubscribing`. -/
def handleSubscribing (f : Fsm) (event : Event) : Fsm :=
  if !f.currentServerId.isAny then f
  else if !f.rebalancingServerId.isAny then f
  else
    match event.type with
    | .kSubscribeRequested => f.setNeedSubscription true
    | .kSubscribeReplyOk =>
      let f := ({ f with currentServerId := event.serverId } : Fsm).changeState .kSubscribed
      if !f.needSubscription then
        (f.emitAction ⟨.kUnsubscribe, f.currentServerId⟩).changeState .kUnsubscribing
      else f
    | .kSubscribeReplyError =>
      -- stubborn: subscribe to any server again
      if f.needSubscription then (f.changeState .kSubscribing).emitAction ⟨.kSubscribe, {}⟩
      else (f.changeState .kUnsubscribed).emitAction ⟨.kDeleteFsm, {}⟩
    | .kRebalanceRequested => f
    | .kUnsubscribeRequested => f.setNeedSubscription false

/-- `HandleSubscribed`. -/
def handleSubscribed (f : Fsm) (event : Event) : Fsm :=
  if f.currentServerId.isAny then f
  else if !f.rebalancingServerId.isAny then f
  else if !f.needSubscription then f
  else
    match event.type with
    | .kSubscribeRequested => f
    | .kSubscribeReplyOk =>
      if event.serverId ≠ f.currentServerId then f.handleOkReplyFromOtherServerId event.serverId
      else f
    | .kSubscribeReplyError =>
      if event.serverId = f.currentServerId then
        (({ f with currentServerId := {} } : Fsm).changeState .kSubscribing).emitAction
          ⟨.kSubscribe, {}⟩
      else f.handleErrorReplyFromOtherServerId event.serverId
    | .kRebalanceRequested =>
      if event.serverId ≠ f.currentServerId then
        (({ f with rebalancingServerId := event.serverId } : Fsm).changeState
          .kRebalancingWaitSubscribe).emitAction ⟨.kSubscribe, event.serverId⟩
      else f
    | .kUnsubscribeRequested =>
      ((f.setNeedSubscription false).emitAction ⟨.kUnsubscribe, f.currentServerId⟩).changeState
        .kUnsubscribing

/-- `HandleUnsubscribing`. -/
def handleUnsubscribing (f : Fsm) (event : Event) : Fsm :=
  if f.currentServerId.isAny then f
  else if !f.rebalancingServerId.isAny then f
  else
    match event.type with
    | .kSubscribeRequested => f.setNeedSubscription true
    | .kSubscribeReplyOk =>
      if event.serverId ≠ f.currentServerId then f.handleOkReplyFromOtherServerId event.serverId
      else f
    | .kSubscribeReplyError =>
      if event.serverId = f.currentServerId then
        let f : Fsm := { f with currentServerId := {} }
        if f.needSubscription then (f.changeState .kSubscribing).emitAction ⟨.kSubscribe, {}⟩
        else (f.changeState .kUnsubscribed).emitAction ⟨.kDeleteFsm, {}⟩
      else f.handleErrorReplyFromOtherServerId event.serverId
    | .kRebalanceRequested => f
    | .kUnsubscribeRequested => f.setNeedSubscription false

/-- `HandleRebalancingWaitSubscribe`. -/
def handleRebalancingWaitSubscribe (f : Fsm) (event : Event) : Fsm :=
  if f.currentServerId.isAny then f
  else if f.rebalancingServerId.isAny then f
  else
    match event.type with
    | .kSubscribeRequested => f.setNeedSubscription true
    | .kSubscribeReplyOk =>
      if event.serverId = f.currentServerId then f
      else if event.serverId = f.rebalancingServerId then
        -- the new server is subscribed: swap, and unsubscribe from the old one
        let f : Fsm :=
          { f with currentServerId := f.rebalancingServerId,
                   rebalancingServerId := f.currentServerId }
        (f.emitAction ⟨.kUnsubscribe, f.rebalancingServerId⟩).changeState
          .kRebalancingWaitUnsubscribe
      else f.handleOkReplyFromOtherServerId event.serverId
    | .kSubscribeReplyError =>
      if event.serverId = f.currentServerId then
        ({ f with currentServerId := {}, rebalancingServerId := {} } : Fsm).changeState
          .kSubscribing
      else if event.serverId = f.rebalancingServerId then
        let f := ({ f with rebalancingServerId := {} } : Fsm).changeState .kSubscribed
        if f.needSubscription then f
        else (f.emitAction ⟨.kUnsubscribe, f.currentServerId⟩).changeState .kUnsubscribing
      else f.handleErrorReplyFromOtherServerId event.serverId
    | .kRebalanceRequested => f
    | .kUnsubscribeRequested => f.setNeedSubscription false

/-- `HandleRebalancingWaitUnsubscribe`. -/
def handleRebalancingWaitUnsubscribe (f : Fsm) (event : Event) : Fsm :=
  if f.currentServerId.isAny then f
  else if f.rebalancingServerId.isAny then f
  else
    match event.type with
    | .kSubscribeRequested => f.setNeedSubscription true
    | .kSubscribeReplyOk =>
      if event.serverId = f.currentServerId ∨ event.serverId = f.rebalancingServerId then f
      else f.handleOkReplyFromOtherServerId event.serverId
    | .kSubscribeReplyError =>
      if event.serverId = f.currentServerId then
        -- still waiting for the unsubscribe confirmation, now from the other server
        ({ f with currentServerId := f.rebalancingServerId, rebalancingServerId := {} } : Fsm)
          |>.changeState .kUnsubscribing
      else if event.serverId = f.rebalancingServerId then
        let f := ({ f with rebalancingServerId := {} } : Fsm).changeState .kSubscribed
        if !f.needSubscription then
          (f.emitAction ⟨.kUnsubscribe, f.currentServerId⟩).changeState .kUnsubscribing
        else f
      else f.handleErrorReplyFromOtherServerId event.serverId
    | .kRebalanceRequested => f
    | .kUnsubscribeRequested => f.setNeedSubscription false

/-- `HandleUnsubscribed`. -/
def handleUnsubscribed (f : Fsm) (event : Event) : Fsm :=
  if !f.currentServerId.isAny then f
  else if !f.rebalancingServerId.isAny then f
  else if f.needSubscription then f
  else
    match event.type with
    | .kSubscribeRequested =>
      ((f.setNeedSubscription true).emitAction ⟨.kSubscribe, {}⟩).changeState .kSubscribing
    | .kSubscribeReplyOk => f.handleOkReplyFromOtherServerId event.serverId
    | .kSubscribeReplyError => f.handleErrorReplyFromOtherServerId event.serverId
    | .kRebalanceRequested => f
    | .kUnsubscribeRequested => f

/-- `OnEvent`. -/
def onEvent (f : Fsm) (event : Event) : Fsm :=
  match f.state with
  | .kSubscribing => f.handleSubscribing event
  | .kSubscribed => f.handleSubscribed event
  | .kUnsubscribing => f.handleUnsubscribing event
  | .kRebalancingWaitSubscribe => f.handleRebalancingWaitSubscribe event
  | .kRebalancingWaitUnsubscribe => f.handleRebalancingWaitUnsubscribe event
  | .kUnsubscribed => f.handleUnsubscribed event

/-- `PopAllPendingActions`: the actions, and the machine without them. -/
def popAllPendingActions (f : Fsm) : List Action × Fsm :=
  (f.pendingActions, { f with pendingActions := [] })

/-- `CanBeRebalanced`. -/
def canBeRebalanced (f : Fsm) : Bool := f.state = .kSubscribed && f.needSubscription

/-- The checks at the top of the handler of the current state, none of which says
"Buggy fsm?". -/
def guardPasses (f : Fsm) : Bool :=
  match f.state with
  | .kSubscribing => f.currentServerId.isAny && f.rebalancingServerId.isAny
  | .kSubscribed => !f.currentServerId.isAny && f.rebalancingServerId.isAny && f.needSubscription
  | .kUnsubscribing => !f.currentServerId.isAny && f.rebalancingServerId.isAny
  | .kRebalancingWaitSubscribe | .kRebalancingWaitUnsubscribe =>
    !f.currentServerId.isAny && !f.rebalancingServerId.isAny
  | .kUnsubscribed =>
    f.currentServerId.isAny && f.rebalancingServerId.isAny && !f.needSubscription

/-! ## The fields of every reachable state -/

/-- The fields each state should have: those its handler checks, and two different servers
while rebalancing. -/
def Inv (f : Fsm) : Prop :=
  match f.state with
  | .kSubscribing => f.currentServerId.isAny ∧ f.rebalancingServerId.isAny
  | .kSubscribed =>
    ¬f.currentServerId.isAny ∧ f.rebalancingServerId.isAny ∧ f.needSubscription
  | .kUnsubscribing => ¬f.currentServerId.isAny ∧ f.rebalancingServerId.isAny
  | .kRebalancingWaitSubscribe | .kRebalancingWaitUnsubscribe =>
    ¬f.currentServerId.isAny ∧ ¬f.rebalancingServerId.isAny ∧
      f.currentServerId ≠ f.rebalancingServerId
  | .kUnsubscribed =>
    f.currentServerId.isAny ∧ f.rebalancingServerId.isAny ∧ ¬f.needSubscription

theorem guardPasses_of_inv {f : Fsm} (h : f.Inv) : f.guardPasses = true := by
  unfold Inv at h
  unfold guardPasses
  split <;> simp_all

end Fsm

/-- An event the driver and the storage send: `OK` replies and rebalance requests name a
concrete server. -/
def Event.WellFormed (event : Event) : Prop :=
  event.type = .kSubscribeReplyOk ∨ event.type = .kRebalanceRequested →
    event.serverId.isAny = false

namespace Fsm

section Preservation

variable {f : Fsm} {event : Event}

theorem inv_handleSubscribing (hs : f.state = .kSubscribing) (hi : f.Inv)
    (he : event.WellFormed) : (f.handleSubscribing event).Inv := by
  have hf := hi
  simp only [Inv, hs] at hf
  obtain ⟨type, serverId⟩ := event
  unfold handleSubscribing
  cases type <;> simp only [hf.1, hf.2, Bool.not_true, Bool.false_eq_true, if_false] <;>
    (try split_ifs) <;> simp_all [Inv, Event.WellFormed]

theorem inv_handleSubscribed (hs : f.state = .kSubscribed) (hi : f.Inv)
    (he : event.WellFormed) : (f.handleSubscribed event).Inv := by
  have hf := hi
  simp only [Inv, hs] at hf
  obtain ⟨type, serverId⟩ := event
  unfold handleSubscribed
  cases type <;> simp only [hf.1, hf.2.1, hf.2.2, Bool.not_true, Bool.false_eq_true, if_false] <;>
    (try split_ifs) <;> simp_all [Inv, Event.WellFormed, handleOkReplyFromOtherServerId,
      handleErrorReplyFromOtherServerId, @eq_comm _ f.currentServerId]

theorem inv_handleUnsubscribing (hs : f.state = .kUnsubscribing) (hi : f.Inv)
    (he : event.WellFormed) : (f.handleUnsubscribing event).Inv := by
  have hf := hi
  simp only [Inv, hs] at hf
  obtain ⟨type, serverId⟩ := event
  unfold handleUnsubscribing
  cases type <;> simp only [hf.1, hf.2, Bool.not_true, Bool.false_eq_true, if_false] <;>
    (try split_ifs) <;> simp_all [Inv, Event.WellFormed, handleOkReplyFromOtherServerId,
      handleErrorReplyFromOtherServerId]

theorem inv_handleRebalancingWaitSubscribe (hs : f.state = .kRebalancingWaitSubscribe)
    (hi : f.Inv) (he : event.WellFormed) : (f.handleRebalancingWaitSubscribe event).Inv := by
  have hf := hi
  simp only [Inv, hs] at hf
  obtain ⟨type, serverId⟩ := event
  unfold handleRebalancingWaitSubscribe
  cases type <;> simp only [hf.1, hf.2.1, Bool.false_eq_true, if_false] <;>
    (try split_ifs) <;> simp_all [Inv, Event.WellFormed, handleOkReplyFromOtherServerId,
      handleErrorReplyFromOtherServerId]

theorem inv_handleRebalancingWaitUnsubscribe (hs : f.state = .kRebalancingWaitUnsubscribe)
    (hi : f.Inv) (he : event.WellFormed) : (f.handleRebalancingWaitUnsubscribe event).Inv := by
  have hf := hi
  simp only [Inv, hs] at hf
  obtain ⟨type, serverId⟩ := event
  unfold handleRebalancingWaitUnsubscribe
  cases type <;> simp only [hf.1, hf.2.1, Bool.false_eq_true, if_false] <;>
    (try split_ifs) <;> simp_all [Inv, Event.WellFormed, handleOkReplyFromOtherServerId,
      handleErrorReplyFromOtherServerId]

theorem inv_handleUnsubscribed (hs : f.state = .kUnsubscribed) (hi : f.Inv)
    (he : event.WellFormed) : (f.handleUnsubscribed event).Inv := by
  have hf := hi
  simp only [Inv, hs] at hf
  obtain ⟨type, serverId⟩ := event
  unfold handleUnsubscribed
  cases type <;> simp only [hf.1, hf.2.1, hf.2.2, Bool.not_true, Bool.false_eq_true, if_false] <;>
    simp_all [Inv, Event.WellFormed, handleOkReplyFromOtherServerId,
      handleErrorReplyFromOtherServerId]

/-- Every event keeps the fields of each state. -/
theorem inv_onEvent (hi : f.Inv) (he : event.WellFormed) : (f.onEvent event).Inv := by
  unfold onEvent
  split
  case h_1 hs => exact inv_handleSubscribing hs hi he
  case h_2 hs => exact inv_handleSubscribed hs hi he
  case h_3 hs => exact inv_handleUnsubscribing hs hi he
  case h_4 hs => exact inv_handleRebalancingWaitSubscribe hs hi he
  case h_5 hs => exact inv_handleRebalancingWaitUnsubscribe hs hi he
  case h_6 hs => exact inv_handleUnsubscribed hs hi he

end Preservation

theorem inv_init : (init {}).Inv := by
  simp [init, Inv]

/-- The machines the storage can hold: one built with the default server id, then any sequence
of well-formed events, with the pending actions popped at any point. -/
inductive Reachable : Fsm → Prop
  | init : Reachable (init {})
  | onEvent {f : Fsm} {event : Event} : Reachable f → event.WellFormed →
      Reachable (f.onEvent event)
  | popAllPendingActions {f : Fsm} : Reachable f → Reachable f.popAllPendingActions.2

theorem Reachable.inv {f : Fsm} (h : Reachable f) : f.Inv := by
  induction h with
  | init => exact inv_init
  | onEvent _ he ih => exact inv_onEvent ih he
  | popAllPendingActions _ ih => exact ih

/-- Every reachable machine has the fields its state should have, so its handler's checks pass
and no event is dropped as "Buggy fsm?". -/
theorem reachable_inv_guardPasses {f : Fsm} (h : Reachable f) : f.Inv ∧ f.guardPasses = true :=
  ⟨h.inv, guardPasses_of_inv h.inv⟩

/-- The machine after its first subscribe reply, from server 1, and a rebalance request to
server 2. -/
theorem reachable_inv_guardPasses_rebalancing :
    let f := ((init {}).onEvent ⟨.kSubscribeReplyOk, ⟨1⟩⟩).onEvent ⟨.kRebalanceRequested, ⟨2⟩⟩
    f.Inv ∧ f.guardPasses = true :=
  reachable_inv_guardPasses
    (.onEvent (.onEvent .init (fun _ => rfl)) (fun _ => rfl))

/-- The machine asks to be deleted only as it enters `kUnsubscribed`. -/
theorem state_of_deleteFsm_mem {f : Fsm} {event : Event} {serverId : ServerId}
    (hp : f.pendingActions = []) (h : ⟨.kDeleteFsm, serverId⟩ ∈ (f.onEvent event).pendingActions) :
    (f.onEvent event).state = .kUnsubscribed := by
  obtain ⟨type, eventServerId⟩ := event
  unfold onEvent at h ⊢
  split at h <;>
  · simp only [handleSubscribing, handleSubscribed, handleUnsubscribing,
      handleRebalancingWaitSubscribe, handleRebalancingWaitUnsubscribe, handleUnsubscribed,
      handleOkReplyFromOtherServerId, handleErrorReplyFromOtherServerId] at h ⊢
    cases type <;> split_ifs at h ⊢ <;> simp [hp] at h ⊢

/-- Only an unsubscribe request clears `need_subscription_`, and a subscribe request sets it. -/
theorem needSubscription_onEvent {f : Fsm} {event : Event} (hi : f.Inv)
    (hunsub : event.type ≠ .kUnsubscribeRequested)
    (hneed : f.needSubscription = true ∨ event.type = .kSubscribeRequested) :
    (f.onEvent event).needSubscription = true := by
  obtain ⟨type, serverId⟩ := event
  -- the handler's checks pass, so each request reaches its `switch`
  unfold onEvent
  split <;> rename_i hs <;> simp only [Inv, hs] at hi
  · simp only [handleSubscribing, hi.1, hi.2, Bool.not_true, Bool.false_eq_true, if_false]
    cases type <;> (try split_ifs) <;> simp_all
  · simp only [handleSubscribed, hi.1, hi.2.1, hi.2.2, Bool.not_true, Bool.false_eq_true, if_false]
    cases type <;> (try split_ifs) <;> simp_all [handleOkReplyFromOtherServerId,
      handleErrorReplyFromOtherServerId]
  · simp only [handleUnsubscribing, hi.1, hi.2, Bool.not_true, Bool.false_eq_true, if_false]
    cases type <;> (try split_ifs) <;> simp_all [handleOkReplyFromOtherServerId,
      handleErrorReplyFromOtherServerId]
  · simp only [handleRebalancingWaitSubscribe, hi.1, hi.2.1, Bool.false_eq_true, if_false]
    cases type <;> (try split_ifs) <;> simp_all [handleOkReplyFromOtherServerId,
      handleErrorReplyFromOtherServerId]
  · simp only [handleRebalancingWaitUnsubscribe, hi.1, hi.2.1, Bool.false_eq_true, if_false]
    cases type <;> (try split_ifs) <;> simp_all [handleOkReplyFromOtherServerId,
      handleErrorReplyFromOtherServerId]
  · simp only [handleUnsubscribed, hi.1, hi.2.1, hi.2.2, Bool.not_true, Bool.false_eq_true,
      if_false]
    cases type <;> simp_all

end Fsm

end Redis

end Userver
