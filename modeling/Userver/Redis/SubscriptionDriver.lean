import Userver.Redis.ShardSubscription

/-!
# One channel's subscription machine with its driver

The subscription storage feeds each reply of the Redis driver to the channel's `Fsm` and then
sends the commands of its pending actions (`HandleServerStateChanged`, `ReadActions`,
`HandleChannelAction`).  The driver here keeps, for the channel, the subscribe commands in flight
(with the server each was sent to), the active subscriptions, and the unsubscribe commands in
flight.  A subscribe is answered once, by an `OK` from a server, which makes that server's
subscription active, or by an error; both name the server the command was sent to when it
named one.  An unsubscribe ends the subscription and is confirmed by an error reply, and an
active subscription may also end by itself with an error reply.  Requests of the storage
(subscribe, unsubscribe, rebalance to a concrete server) come at any time.

* `System.Reachable.coupled`: in every reachable state the driver holds exactly the commands
  and subscriptions the machine's state accounts for (`Coupled`).
* `reachable_subscription_safe`: the machine asks to be deleted only when nothing is in flight
  and nothing is subscribed; in `kSubscribed` its current server is subscribed; and once every
  command is answered while a subscription is wanted, exactly that one subscription is active.
-/

namespace Userver

namespace Redis

/-- The driver's commands and subscriptions for one channel. -/
structure Driver where
  /-- The servers subscribe commands in flight were sent to, any server included. -/
  inflight : List ServerId := []
  /-- The servers with an active subscription. -/
  active : List ServerId := []
  /-- The servers unsubscribe commands in flight were sent to. -/
  unsubscribing : List ServerId := []
  deriving DecidableEq, Repr

/-- What the driver tells the machine next. -/
inductive DriverEvent where
  /-- The subscribe sent to `s` is answered `OK` by `t`. -/
  | replyOk (s t : ServerId)
  /-- The subscribe sent to `s` fails, reported for `t`. -/
  | replyError (s t : ServerId)
  /-- The unsubscribe of `t` is done. -/
  | unsubscribed (t : ServerId)
  /-- The subscription on `t` ends by itself. -/
  | dropped (t : ServerId)
  /-- The storage's request. -/
  | request (event : Event)
  deriving DecidableEq, Repr

namespace Driver

/-- The event the driver sends the machine, and the driver after it; `none` when the driver
cannot produce it. -/
def produce (d : Driver) : DriverEvent → Option (Event × Driver)
  | .replyOk s t =>
    if s ∈ d.inflight ∧ !t.isAny ∧ (!s.isAny → t = s) then
      some (⟨.kSubscribeReplyOk, t⟩,
        { d with inflight := d.inflight.erase s, active := d.active ++ [t] })
    else none
  | .replyError s t =>
    if s ∈ d.inflight ∧ (!s.isAny → t = s) then
      some (⟨.kSubscribeReplyError, t⟩, { d with inflight := d.inflight.erase s })
    else none
  | .unsubscribed t =>
    if t ∈ d.unsubscribing ∧ t ∈ d.active then
      some (⟨.kSubscribeReplyError, t⟩,
        { d with active := d.active.erase t, unsubscribing := d.unsubscribing.erase t })
    else none
  | .dropped t =>
    if t ∈ d.active then
      some (⟨.kSubscribeReplyError, t⟩,
        { d with active := d.active.erase t, unsubscribing := d.unsubscribing.erase t })
    else none
  | .request event =>
    if event.type = .kSubscribeRequested ∨ event.type = .kUnsubscribeRequested ∨
        (event.type = .kRebalanceRequested ∧ !event.serverId.isAny) then
      some (event, d)
    else none

/-- `HandleChannelAction`: a subscribe or an unsubscribe command is sent. -/
def handleChannelAction (d : Driver) (action : Action) : Driver :=
  match action.type with
  | .kSubscribe => { d with inflight := d.inflight ++ [action.serverId] }
  | .kUnsubscribe => { d with unsubscribing := d.unsubscribing ++ [action.serverId] }
  | .kDeleteFsm => d

section Produce

variable {d d₀ : Driver} {event : Event}

theorem produce_replyOk {s t : ServerId} (h : d.produce (.replyOk s t) = some (event, d₀)) :
    s ∈ d.inflight ∧ t.isAny = false ∧ (s.isAny = false → t = s) ∧
      event = ⟨.kSubscribeReplyOk, t⟩ ∧
      d₀ = { d with inflight := d.inflight.erase s, active := d.active ++ [t] } := by
  simp only [produce] at h
  split at h
  · simp only [Option.some.injEq, Prod.mk.injEq] at h
    obtain ⟨rfl, rfl⟩ := h
    simp_all
  · cases h

theorem produce_replyError {s t : ServerId} (h : d.produce (.replyError s t) = some (event, d₀)) :
    s ∈ d.inflight ∧ (s.isAny = false → t = s) ∧ event = ⟨.kSubscribeReplyError, t⟩ ∧
      d₀ = { d with inflight := d.inflight.erase s } := by
  simp only [produce] at h
  split at h
  · simp only [Option.some.injEq, Prod.mk.injEq] at h
    obtain ⟨rfl, rfl⟩ := h
    simp_all
  · cases h

theorem produce_unsubscribed {t : ServerId} (h : d.produce (.unsubscribed t) = some (event, d₀)) :
    t ∈ d.unsubscribing ∧ t ∈ d.active ∧ event = ⟨.kSubscribeReplyError, t⟩ ∧
      d₀ = { d with active := d.active.erase t, unsubscribing := d.unsubscribing.erase t } := by
  simp only [produce] at h
  split at h
  · simp only [Option.some.injEq, Prod.mk.injEq] at h
    obtain ⟨rfl, rfl⟩ := h
    simp_all
  · cases h

theorem produce_dropped {t : ServerId} (h : d.produce (.dropped t) = some (event, d₀)) :
    t ∈ d.active ∧ event = ⟨.kSubscribeReplyError, t⟩ ∧
      d₀ = { d with active := d.active.erase t, unsubscribing := d.unsubscribing.erase t } := by
  simp only [produce] at h
  split at h
  · simp only [Option.some.injEq, Prod.mk.injEq] at h
    obtain ⟨rfl, rfl⟩ := h
    simp_all
  · cases h

theorem produce_request {e : Event} (h : d.produce (.request e) = some (event, d₀)) :
    (e.type = .kSubscribeRequested ∨ e.type = .kUnsubscribeRequested ∨
      (e.type = .kRebalanceRequested ∧ e.serverId.isAny = false)) ∧ event = e ∧ d₀ = d := by
  simp only [produce] at h
  split at h
  · simp only [Option.some.injEq, Prod.mk.injEq] at h
    obtain ⟨rfl, rfl⟩ := h
    simp_all
  · cases h

end Produce

end Driver

/-- The machine of a channel and its driver. -/
structure System where
  fsm : Fsm
  driver : Driver

namespace System

/-- A new channel: the machine of the default server id, whose subscribe was sent. -/
def init : System :=
  let (actions, fsm) := (Fsm.init {}).popAllPendingActions
  ⟨fsm, actions.foldl Driver.handleChannelAction {}⟩

/-- The driver produces an event, the machine handles it (`OnEvent`), and its actions are
popped and sent (`ReadActions`): the actions, and the system after. -/
def step (sys : System) (ev : DriverEvent) : Option (List Action × System) :=
  (sys.driver.produce ev).map fun (event, driver) =>
    let (actions, fsm) := (sys.fsm.onEvent event).popAllPendingActions
    (actions, ⟨fsm, actions.foldl Driver.handleChannelAction driver⟩)

/-- The systems a new channel reaches. -/
inductive Reachable : System → Prop
  | init : Reachable init
  | step {sys sys' : System} {ev : DriverEvent} {actions : List Action} :
      Reachable sys → sys.step ev = some (actions, sys') → Reachable sys'

theorem step_eq_some {sys sys' : System} {ev : DriverEvent} {actions : List Action}
    (h : sys.step ev = some (actions, sys')) :
    ∃ event d₀, sys.driver.produce ev = some (event, d₀) ∧
      actions = (sys.fsm.onEvent event).pendingActions ∧
      sys' = ⟨{ sys.fsm.onEvent event with pendingActions := [] },
        (sys.fsm.onEvent event).pendingActions.foldl Driver.handleChannelAction d₀⟩ := by
  simp only [step, Option.map_eq_some_iff] at h
  obtain ⟨⟨event, d₀⟩, hprod, heq⟩ := h
  simp only [Fsm.popAllPendingActions, Prod.mk.injEq] at heq
  exact ⟨event, d₀, hprod, heq.1.symm, heq.2.symm⟩

/-- The driver holds exactly the commands and subscriptions the machine's state accounts for:
one subscribe in flight while subscribing, the current subscription, the unsubscribe of the
current server while unsubscribing, the new server's subscribe while rebalancing, and both
subscriptions with the old one's unsubscribe after the swap. -/
def Coupled (sys : System) : Prop :=
  match sys.fsm.state with
  | .kSubscribing =>
    (∃ s, sys.driver.inflight = [s]) ∧ sys.driver.active = [] ∧ sys.driver.unsubscribing = []
  | .kSubscribed =>
    sys.driver.inflight = [] ∧ sys.driver.active = [sys.fsm.currentServerId] ∧
      sys.driver.unsubscribing = []
  | .kUnsubscribing =>
    sys.driver.inflight = [] ∧ sys.driver.active = [sys.fsm.currentServerId] ∧
      sys.driver.unsubscribing = [sys.fsm.currentServerId]
  | .kRebalancingWaitSubscribe =>
    sys.driver.inflight = [sys.fsm.rebalancingServerId] ∧
      sys.driver.active = [sys.fsm.currentServerId] ∧ sys.driver.unsubscribing = []
  | .kRebalancingWaitUnsubscribe =>
    sys.driver.inflight = [] ∧
      sys.driver.active = [sys.fsm.rebalancingServerId, sys.fsm.currentServerId] ∧
      sys.driver.unsubscribing = [sys.fsm.rebalancingServerId]
  | .kUnsubscribed =>
    sys.driver.inflight = [] ∧ sys.driver.active = [] ∧ sys.driver.unsubscribing = []

section Coupling

variable {sys sys' : System} {ev : DriverEvent} {actions : List Action}

theorem coupled_step_subscribing (hs : sys.fsm.state = .kSubscribing) (hi : sys.fsm.Inv)
    (hp : sys.fsm.pendingActions = []) (hc : sys.Coupled)
    (h : sys.step ev = some (actions, sys')) : sys'.Coupled := by
  obtain ⟨event, d₀, hprod, -, rfl⟩ := step_eq_some h
  obtain ⟨f, ⟨inflight, active, unsubscribing⟩⟩ := sys
  simp only at hs hi hp hprod ⊢
  simp only [Coupled, hs] at hc
  simp only [Fsm.Inv, hs] at hi
  obtain ⟨⟨s, rfl⟩, rfl, rfl⟩ := hc
  cases ev with
  | replyOk s' t =>
    obtain ⟨hs', ht, -, rfl, rfl⟩ := Driver.produce_replyOk hprod
    rw [List.mem_singleton] at hs'
    subst hs'
    simp [Fsm.onEvent, hs, Fsm.handleSubscribing, hi.1, hi.2]
    split_ifs <;> simp_all [Coupled, Driver.handleChannelAction]
  | replyError s' t =>
    obtain ⟨hs', -, rfl, rfl⟩ := Driver.produce_replyError hprod
    rw [List.mem_singleton] at hs'
    subst hs'
    simp [Fsm.onEvent, hs, Fsm.handleSubscribing, hi.1, hi.2]
    split_ifs <;> simp_all [Coupled, Driver.handleChannelAction]
  | unsubscribed t => simpa using (Driver.produce_unsubscribed hprod).1
  | dropped t => simpa using (Driver.produce_dropped hprod).1
  | request e =>
    obtain ⟨type, serverId⟩ := e
    obtain ⟨htype, rfl, rfl⟩ := Driver.produce_request hprod
    cases type <;> simp at htype <;>
      simp [Coupled, Fsm.onEvent, hs, Fsm.handleSubscribing, hi.1, hi.2, hp]

theorem coupled_step_subscribed (hs : sys.fsm.state = .kSubscribed) (hi : sys.fsm.Inv)
    (hp : sys.fsm.pendingActions = []) (hc : sys.Coupled)
    (h : sys.step ev = some (actions, sys')) : sys'.Coupled := by
  obtain ⟨event, d₀, hprod, -, rfl⟩ := step_eq_some h
  obtain ⟨f, ⟨inflight, active, unsubscribing⟩⟩ := sys
  simp only at hs hi hp hprod ⊢
  simp only [Coupled, hs] at hc
  simp only [Fsm.Inv, hs] at hi
  obtain ⟨rfl, rfl, rfl⟩ := hc
  cases ev with
  | replyOk s t => simpa using (Driver.produce_replyOk hprod).1
  | replyError s t => simpa using (Driver.produce_replyError hprod).1
  | unsubscribed t => simpa using (Driver.produce_unsubscribed hprod).1
  | dropped t =>
    obtain ⟨ht, rfl, rfl⟩ := Driver.produce_dropped hprod
    rw [List.mem_singleton] at ht
    subst ht
    simp [Coupled, Fsm.onEvent, hs, Fsm.handleSubscribed, hi.1, hi.2.1, hi.2.2, hp,
      Driver.handleChannelAction]
  | request e =>
    obtain ⟨type, serverId⟩ := e
    obtain ⟨htype, rfl, rfl⟩ := Driver.produce_request hprod
    cases type <;> simp at htype <;>
      simp [Coupled, Fsm.onEvent, hs, Fsm.handleSubscribed, hi.1, hi.2.1, hi.2.2, hp,
        Driver.handleChannelAction]
    -- a rebalance to another server subscribes there, one to the current server does nothing
    case kRebalanceRequested => split_ifs <;> simp_all [Driver.handleChannelAction]

theorem coupled_step_unsubscribing (hs : sys.fsm.state = .kUnsubscribing) (hi : sys.fsm.Inv)
    (hp : sys.fsm.pendingActions = []) (hc : sys.Coupled)
    (h : sys.step ev = some (actions, sys')) : sys'.Coupled := by
  obtain ⟨event, d₀, hprod, -, rfl⟩ := step_eq_some h
  obtain ⟨f, ⟨inflight, active, unsubscribing⟩⟩ := sys
  simp only at hs hi hp hprod ⊢
  simp only [Coupled, hs] at hc
  simp only [Fsm.Inv, hs] at hi
  obtain ⟨rfl, rfl, rfl⟩ := hc
  cases ev with
  | replyOk s t => simpa using (Driver.produce_replyOk hprod).1
  | replyError s t => simpa using (Driver.produce_replyError hprod).1
  | unsubscribed t =>
    obtain ⟨ht, -, rfl, rfl⟩ := Driver.produce_unsubscribed hprod
    rw [List.mem_singleton] at ht
    subst ht
    simp [Fsm.onEvent, hs, Fsm.handleUnsubscribing, hi.1, hi.2, hp]
    split_ifs <;> simp_all [Coupled, Driver.handleChannelAction]
  | dropped t =>
    obtain ⟨ht, rfl, rfl⟩ := Driver.produce_dropped hprod
    rw [List.mem_singleton] at ht
    subst ht
    simp [Fsm.onEvent, hs, Fsm.handleUnsubscribing, hi.1, hi.2, hp]
    split_ifs <;> simp_all [Coupled, Driver.handleChannelAction]
  | request e =>
    obtain ⟨type, serverId⟩ := e
    obtain ⟨htype, rfl, rfl⟩ := Driver.produce_request hprod
    cases type <;> simp at htype <;>
      simp [Coupled, Fsm.onEvent, hs, Fsm.handleUnsubscribing, hi.1, hi.2, hp]

theorem coupled_step_rebalancingWaitSubscribe (hs : sys.fsm.state = .kRebalancingWaitSubscribe)
    (hi : sys.fsm.Inv) (hp : sys.fsm.pendingActions = []) (hc : sys.Coupled)
    (h : sys.step ev = some (actions, sys')) : sys'.Coupled := by
  obtain ⟨event, d₀, hprod, -, rfl⟩ := step_eq_some h
  obtain ⟨f, ⟨inflight, active, unsubscribing⟩⟩ := sys
  simp only at hs hi hp hprod ⊢
  simp only [Coupled, hs] at hc
  simp only [Fsm.Inv, hs] at hi
  obtain ⟨rfl, rfl, rfl⟩ := hc
  obtain ⟨hcur, hreb, hne⟩ := hi
  cases ev with
  | replyOk s t =>
    obtain ⟨hs', ht, hts, rfl, rfl⟩ := Driver.produce_replyOk hprod
    rw [List.mem_singleton] at hs'
    subst hs'
    obtain rfl := hts (by simpa using hreb)
    simp [Coupled, Fsm.onEvent, hs, Fsm.handleRebalancingWaitSubscribe, hcur, hreb, hp, Ne.symm hne,
      Driver.handleChannelAction]
  | replyError s t =>
    obtain ⟨hs', hts, rfl, rfl⟩ := Driver.produce_replyError hprod
    rw [List.mem_singleton] at hs'
    subst hs'
    obtain rfl := hts (by simpa using hreb)
    simp [Fsm.onEvent, hs, Fsm.handleRebalancingWaitSubscribe, hcur, hreb, hp, Ne.symm hne]
    split_ifs <;> simp_all [Coupled, Driver.handleChannelAction]
  | unsubscribed t => simpa using (Driver.produce_unsubscribed hprod).1
  | dropped t =>
    obtain ⟨ht, rfl, rfl⟩ := Driver.produce_dropped hprod
    rw [List.mem_singleton] at ht
    subst ht
    simp [Coupled, Fsm.onEvent, hs, Fsm.handleRebalancingWaitSubscribe, hcur, hreb, hp]
  | request e =>
    obtain ⟨type, serverId⟩ := e
    obtain ⟨htype, rfl, rfl⟩ := Driver.produce_request hprod
    cases type <;> simp at htype <;>
      simp [Coupled, Fsm.onEvent, hs, Fsm.handleRebalancingWaitSubscribe, hcur, hreb, hp]

theorem coupled_step_rebalancingWaitUnsubscribe
    (hs : sys.fsm.state = .kRebalancingWaitUnsubscribe) (hi : sys.fsm.Inv)
    (hp : sys.fsm.pendingActions = []) (hc : sys.Coupled)
    (h : sys.step ev = some (actions, sys')) : sys'.Coupled := by
  obtain ⟨event, d₀, hprod, -, rfl⟩ := step_eq_some h
  obtain ⟨f, ⟨inflight, active, unsubscribing⟩⟩ := sys
  simp only at hs hi hp hprod ⊢
  simp only [Coupled, hs] at hc
  simp only [Fsm.Inv, hs] at hi
  obtain ⟨rfl, rfl, rfl⟩ := hc
  obtain ⟨hcur, hreb, hne⟩ := hi
  cases ev with
  | replyOk s t => simpa using (Driver.produce_replyOk hprod).1
  | replyError s t => simpa using (Driver.produce_replyError hprod).1
  | unsubscribed t =>
    obtain ⟨ht, -, rfl, rfl⟩ := Driver.produce_unsubscribed hprod
    rw [List.mem_singleton] at ht
    subst ht
    simp [Fsm.onEvent, hs, Fsm.handleRebalancingWaitUnsubscribe, hcur, hreb, hp, Ne.symm hne]
    split_ifs <;> simp_all [Coupled, Driver.handleChannelAction]
  | dropped t =>
    obtain ⟨ht, rfl, rfl⟩ := Driver.produce_dropped hprod
    simp only [List.mem_cons, List.mem_nil_iff, or_false] at ht
    rcases ht with rfl | rfl
    · simp [Fsm.onEvent, hs, Fsm.handleRebalancingWaitUnsubscribe, hcur, hreb, hp, Ne.symm hne]
      split_ifs <;> simp_all [Coupled, Driver.handleChannelAction]
    · have herase : [f.rebalancingServerId, f.currentServerId].erase f.currentServerId =
          [f.rebalancingServerId] := by simp [Ne.symm hne]
      simp [Coupled, Fsm.onEvent, hs, Fsm.handleRebalancingWaitUnsubscribe, hcur, hreb, hp, hne,
        herase]
  | request e =>
    obtain ⟨type, serverId⟩ := e
    obtain ⟨htype, rfl, rfl⟩ := Driver.produce_request hprod
    cases type <;> simp at htype <;>
      simp [Coupled, Fsm.onEvent, hs, Fsm.handleRebalancingWaitUnsubscribe, hcur, hreb, hp]

theorem coupled_step_unsubscribed (hs : sys.fsm.state = .kUnsubscribed) (hi : sys.fsm.Inv)
    (hp : sys.fsm.pendingActions = []) (hc : sys.Coupled)
    (h : sys.step ev = some (actions, sys')) : sys'.Coupled := by
  obtain ⟨event, d₀, hprod, -, rfl⟩ := step_eq_some h
  obtain ⟨f, ⟨inflight, active, unsubscribing⟩⟩ := sys
  simp only at hs hi hp hprod ⊢
  simp only [Coupled, hs] at hc
  simp only [Fsm.Inv, hs] at hi
  obtain ⟨rfl, rfl, rfl⟩ := hc
  cases ev with
  | replyOk s t => simpa using (Driver.produce_replyOk hprod).1
  | replyError s t => simpa using (Driver.produce_replyError hprod).1
  | unsubscribed t => simpa using (Driver.produce_unsubscribed hprod).1
  | dropped t => simpa using (Driver.produce_dropped hprod).1
  | request e =>
    obtain ⟨type, serverId⟩ := e
    obtain ⟨htype, rfl, rfl⟩ := Driver.produce_request hprod
    cases type <;> simp at htype <;>
      simp [Coupled, Fsm.onEvent, hs, Fsm.handleUnsubscribed, hi.1, hi.2.1, hi.2.2, hp,
        Driver.handleChannelAction]

end Coupling

theorem Driver.produce_wellFormed {d d₀ : Driver} {ev : DriverEvent} {event : Event}
    (h : d.produce ev = some (event, d₀)) : event.WellFormed := by
  intro htype
  cases ev with
  | replyOk s t =>
    obtain ⟨-, ht, -, rfl, -⟩ := Driver.produce_replyOk h
    exact ht
  | replyError s t =>
    obtain ⟨-, -, rfl, -⟩ := Driver.produce_replyError h
    simp at htype
  | unsubscribed t =>
    obtain ⟨-, -, rfl, -⟩ := Driver.produce_unsubscribed h
    simp at htype
  | dropped t =>
    obtain ⟨-, rfl, -⟩ := Driver.produce_dropped h
    simp at htype
  | request e =>
    obtain ⟨hreq, rfl, -⟩ := Driver.produce_request h
    rcases hreq with h₁ | h₁ | ⟨-, h₂⟩
    · rw [h₁] at htype
      simp at htype
    · rw [h₁] at htype
      simp at htype
    · exact h₂

/-- What every reachable system keeps: the machine's fields, no action left unsent, and the
driver coupled to the machine. -/
structure Good (sys : System) : Prop where
  inv : sys.fsm.Inv
  popped : sys.fsm.pendingActions = []
  coupled : sys.Coupled

theorem good_init : init.Good :=
  ⟨by simp [init, Fsm.init, Fsm.popAllPendingActions, Fsm.Inv], rfl,
    by simp [init, Fsm.init, Fsm.popAllPendingActions, Coupled, Driver.handleChannelAction]⟩

theorem Good.step {sys sys' : System} {ev : DriverEvent} {actions : List Action}
    (hg : sys.Good) (h : sys.step ev = some (actions, sys')) : sys'.Good := by
  have hcoupled : sys'.Coupled := by
    cases hs : sys.fsm.state
    case kSubscribing => exact coupled_step_subscribing hs hg.inv hg.popped hg.coupled h
    case kSubscribed => exact coupled_step_subscribed hs hg.inv hg.popped hg.coupled h
    case kUnsubscribing => exact coupled_step_unsubscribing hs hg.inv hg.popped hg.coupled h
    case kRebalancingWaitSubscribe =>
      exact coupled_step_rebalancingWaitSubscribe hs hg.inv hg.popped hg.coupled h
    case kRebalancingWaitUnsubscribe =>
      exact coupled_step_rebalancingWaitUnsubscribe hs hg.inv hg.popped hg.coupled h
    case kUnsubscribed => exact coupled_step_unsubscribed hs hg.inv hg.popped hg.coupled h
  obtain ⟨event, d₀, hprod, -, rfl⟩ := step_eq_some h
  exact ⟨Fsm.inv_onEvent hg.inv (Driver.produce_wellFormed hprod), rfl, hcoupled⟩

theorem Reachable.good {sys : System} (h : sys.Reachable) : sys.Good := by
  induction h with
  | init => exact good_init
  | step _ hstep ih => exact ih.step hstep

end System

/-- Over every interleaving of the driver's replies and the storage's requests: the machine
asks to be deleted only when no subscribe is in flight and no subscription is active; while it
is in `kSubscribed` its current server has an active subscription; and when a subscription is
wanted and no command is in flight, the machine is in `kSubscribed` with exactly that
subscription active.  Only an unsubscribe request clears the wish, and a subscribe request sets
it. -/
theorem reachable_subscription_safe {sys : System} (h : sys.Reachable) :
    (∀ ev actions sys', sys.step ev = some (actions, sys') →
        (∃ s, ⟨.kDeleteFsm, s⟩ ∈ actions) →
        sys'.driver.inflight = [] ∧ sys'.driver.active = []) ∧
      (sys.fsm.state = .kSubscribed → sys.fsm.currentServerId ∈ sys.driver.active) ∧
      (sys.fsm.needSubscription = true → sys.driver.inflight = [] →
        sys.driver.unsubscribing = [] →
        sys.fsm.state = .kSubscribed ∧ sys.driver.active = [sys.fsm.currentServerId]) ∧
      (∀ ev actions sys', sys.step ev = some (actions, sys') →
        (∀ serverId, ev ≠ .request ⟨.kUnsubscribeRequested, serverId⟩) →
        (sys.fsm.needSubscription = true ∨ ∃ serverId, ev = .request ⟨.kSubscribeRequested, serverId⟩) →
        sys'.fsm.needSubscription = true) := by
  have hg := h.good
  refine ⟨?delete, ?subscribed, ?answered, ?need⟩
  case delete =>
    intro ev actions sys' hstep ⟨s, hmem⟩
    have hg' := hg.step hstep
    obtain ⟨event, d₀, -, rfl, rfl⟩ := System.step_eq_some hstep
    have hstate := Fsm.state_of_deleteFsm_mem hg.popped hmem
    have hc := hg'.coupled
    simp only [System.Coupled, hstate] at hc
    exact ⟨hc.1, hc.2.1⟩
  case subscribed =>
    intro hs
    have hc := hg.coupled
    simp only [System.Coupled, hs] at hc
    simp [hc.2.1]
  case answered =>
    intro hneed hinflight hunsub
    have hc := hg.coupled
    have hi := hg.inv
    -- the states with nothing in flight are `kSubscribed` and `kUnsubscribed`, which has no wish
    unfold System.Coupled at hc
    unfold Fsm.Inv at hi
    split at hc <;> rename_i hs <;> simp only [hs] at hi <;> simp_all
  case need =>
    intro ev actions sys' hstep hunsub hneed
    obtain ⟨event, d₀, hprod, -, rfl⟩ := System.step_eq_some hstep
    apply Fsm.needSubscription_onEvent hg.inv
    · intro htype
      cases ev with
      | request e =>
        obtain ⟨type, serverId⟩ := e
        obtain ⟨-, rfl, -⟩ := Driver.produce_request hprod
        simp only at htype
        subst htype
        exact hunsub serverId rfl
      | replyOk s t => simp [(Driver.produce_replyOk hprod).2.2.2.1] at htype
      | replyError s t => simp [(Driver.produce_replyError hprod).2.2.1] at htype
      | unsubscribed t => simp [(Driver.produce_unsubscribed hprod).2.2.1] at htype
      | dropped t => simp [(Driver.produce_dropped hprod).2.1] at htype
    · rcases hneed with hneed | ⟨serverId, rfl⟩
      · exact .inl hneed
      · obtain ⟨-, rfl, -⟩ := Driver.produce_request hprod
        exact .inr rfl

/-- A new channel: its subscribe to any server is in flight. -/
theorem reachable_subscription_safe_init :
    (∀ ev actions sys', System.init.step ev = some (actions, sys') →
        (∃ s, ⟨.kDeleteFsm, s⟩ ∈ actions) →
        sys'.driver.inflight = [] ∧ sys'.driver.active = []) ∧
      (System.init.fsm.state = .kSubscribed →
        System.init.fsm.currentServerId ∈ System.init.driver.active) ∧
      (System.init.fsm.needSubscription = true → System.init.driver.inflight = [] →
        System.init.driver.unsubscribing = [] →
        System.init.fsm.state = .kSubscribed ∧
          System.init.driver.active = [System.init.fsm.currentServerId]) ∧
      (∀ ev actions sys', System.init.step ev = some (actions, sys') →
        (∀ serverId, ev ≠ .request ⟨.kUnsubscribeRequested, serverId⟩) →
        (System.init.fsm.needSubscription = true ∨
          ∃ serverId, ev = .request ⟨.kSubscribeRequested, serverId⟩) →
        sys'.fsm.needSubscription = true) :=
  reachable_subscription_safe .init

end Redis

end Userver
