import Mathlib.Tactic.Common

/-!
# The distributed lock's watchdog

`dist_lock::impl::Locker` (`locker.cpp`) keeps a distributed lock for a worker.  `Locker::Run`
loops: it reads the settings, calls the strategy's `Acquire(lock_ttl, id)` and, on success,
records the time the attempt started in `lock_refresh_since_epoch_` (`ExchangeLockState`) and
starts the watchdog task when the lock was not held.  The watchdog (`RunWatchdog`) starts the
worker and checks, every `forced_stop_margin / 2`, the deadline `lock_refresh + lock_ttl -
forced_stop_margin`, reading the settings anew at every check; past the deadline it cancels the
worker.  A busy lock while the lock is held is a brain split: `Run` cancels the watchdog and
drops the lock.  When the watchdog ends, `Run` unlocks (`LockGuard::TryUnlock`, which calls
`Release` if the lock was held), and so does the guard when `Run` returns.

The model is a state machine whose events are the steps of `Run`'s loop and of the watchdog's
loop, in any interleaving, each at a time of the steady clock (milliseconds).  `Reachable` keeps,
as ghost state, every successful `Acquire` (when it started and the `lock_ttl` it was passed) and
whether one is still owed a `Release`.

* `Reachable.invariant`: the worker runs only under the lock, and while the lock is held,
  `lock_refresh` is the start of the last successful `Acquire`.
* `Reachable.check_covered`: so a check that lets the worker run is covered by that lease up to
  the next check, whenever the current `lock_ttl` is at most the one the `Acquire` was passed.
* `Reachable.finish_releases`: when `Run` returns, every successful `Acquire` not followed by a
  brain split has been released.
* `worker_outlives_lease_after_ttl_raise`: `SetSettings` raising `lock_ttl` after an `Acquire`
  moves the watchdog's deadline past that `Acquire`'s lease; if the later `Acquire`s fail, the
  worker runs unprotected.

Statistics, logging, spans, the worker's restart delay and the waits of `Run` between attempts
are left out: an event happens at whatever time the schedule gives it.
-/

namespace Userver

namespace DistLock

/-- `DistLockSettings`, in milliseconds. -/
structure DistLockSettings where
  acquireInterval : Int
  prolongInterval : Int
  lockTtl : Int
  forcedStopMargin : Int
  workerFuncRestartDelay : Int
  deriving DecidableEq, Repr

/-- The defaults of `DistLockSettings`. -/
def DistLockSettings.default : DistLockSettings := ⟨100, 100, 1000, 50, 100⟩

/-- Settings whose watchdog deadline falls inside the lock: a positive `forced_stop_margin` (the
watchdog waits half of it between its checks) of at most `lock_ttl` (the deadline is
`lock_ttl - forced_stop_margin` after the last refresh). -/
def DistLockSettings.Valid (settings : DistLockSettings) : Prop :=
  0 < settings.forcedStopMargin ∧ settings.forcedStopMargin ≤ settings.lockTtl

instance (settings : DistLockSettings) : Decidable settings.Valid :=
  inferInstanceAs (Decidable (_ ∧ _))

/-- `LockerMode`. -/
inductive LockerMode where
  | kOneshot
  | kWorker
  deriving DecidableEq, Repr

/-- What the strategy's `Acquire` does: it succeeds, throws
`LockIsAcquiredByAnotherHostException`, or throws anything else. -/
inductive AcquireResult where
  | ok
  | acquiredByAnotherHost
  | failed
  deriving DecidableEq, Repr

/-- The watchdog task as `Run` sees it: none, running with its worker not asked to cancel,
waiting for a worker it asked to cancel, or finished, with whether the worker succeeded. -/
inductive WatchdogTask where
  | invalid
  | running
  | cancelRequested
  | finished (workerSucceeded : Bool)
  deriving DecidableEq, Repr

/-- The members of `Locker` the lock protocol reads and writes, with the watchdog task. -/
structure LockerState where
  settings : DistLockSettings
  isLocked : Bool
  lockRefresh : Int
  lockAcquire : Int
  watchdog : WatchdogTask
  deriving DecidableEq, Repr

/-- A `Locker` as its constructor leaves it. -/
def LockerState.initial (settings : DistLockSettings) : LockerState :=
  ⟨settings, false, 0, 0, .invalid⟩

/-- The calls to the strategy. -/
inductive StrategyCall where
  | acquire (lockTtl : Int)
  | release
  deriving DecidableEq, Repr

namespace LockerState

/-- `ExchangeLockState`: the state before, and the state after. -/
def exchangeLockState (isLocked : Bool) (when : Int) (s : LockerState) : Bool × LockerState :=
  let wasLocked := s.isLocked
  let s := { s with lockRefresh := when, isLocked := isLocked }
  let s := if isLocked ≠ wasLocked ∧ !wasLocked then { s with lockAcquire := when } else s
  (wasLocked, s)

/-- `LockGuard::TryUnlock`: drop the lock, and `Release` it if it was held. -/
def tryUnlock (now : Int) (s : LockerState) : LockerState × List StrategyCall :=
  let (wasLocked, s) := s.exchangeLockState false now
  (s, if wasLocked then [.release] else [])

/-- The acquisition part of one iteration of `Run`'s loop, with the attempt started at
`attemptStart` and, on a brain split, the lock dropped at `now`. -/
def acquire (attemptStart now : Int) (result : AcquireResult) (s : LockerState) :
    LockerState × List StrategyCall :=
  let calls := [StrategyCall.acquire s.settings.lockTtl]
  match result with
  | .ok =>
    let (wasLocked, s) := s.exchangeLockState true attemptStart
    -- the watchdog starts with the lock; a stale one was waited for first
    ((if !wasLocked then { s with watchdog := .running } else s), calls)
  | .acquiredByAnotherHost =>
    if s.isLocked then
      -- brain split: cancel and wait for the watchdog, then drop the lock
      (({ s with watchdog := .invalid }).exchangeLockState false now |>.2, calls)
    else (s, calls)
  | .failed => (s, calls)

/-- The deadline the watchdog checks. -/
def deadline (s : LockerState) : Int :=
  s.lockRefresh + s.settings.lockTtl - s.settings.forcedStopMargin

/-- One check of `RunWatchdog`'s loop at `now`: past the deadline the watchdog asks the worker
to cancel and waits for it. -/
def watchdogCheck (now : Int) (s : LockerState) : LockerState :=
  match s.watchdog with
  | .running => if s.deadline < now then { s with watchdog := .cancelRequested } else s
  | _ => s

/-- The worker returns (or throws) while the watchdog waits for it; the watchdog then finishes
as the worker did (`GetTask` of the worker), cancelled or not. -/
def workerReturn (succeeded : Bool) (s : LockerState) : LockerState :=
  match s.watchdog with
  | .running | .cancelRequested => { s with watchdog := .finished succeeded }
  | _ => s

/-- The branch of `Run`'s loop for a finished watchdog: the task is collected and, after a
failure or in `kWorker` mode, the lock is dropped. -/
def collectWatchdog (mode : LockerMode) (now : Int) (s : LockerState) :
    LockerState × List StrategyCall :=
  match s.watchdog with
  | .finished succeeded =>
    let s := { s with watchdog := .invalid }
    if !succeeded || mode = .kWorker then s.tryUnlock now else (s, [])
  | _ => (s, [])

/-- The end of `Run`: the watchdog is cancelled and waited for, and the guard unlocks. -/
def finish (now : Int) (s : LockerState) : LockerState × List StrategyCall :=
  ({ s with watchdog := .invalid }).tryUnlock now

end LockerState

/-- The events of a run: `SetSettings`, and the steps of `Run`'s and the watchdog's loops. -/
inductive Event where
  | setSettings (settings : DistLockSettings)
  | acquire (attemptStart now : Int) (result : AcquireResult)
  | watchdogCheck (now : Int)
  | workerReturn (succeeded : Bool)
  | collectWatchdog (now : Int)
  | finish (now : Int)
  deriving DecidableEq, Repr

/-- One event: the state after it and the calls to the strategy it made. -/
def step (mode : LockerMode) (s : LockerState) : Event → LockerState × List StrategyCall
  | .setSettings settings => ({ s with settings }, [])
  | .acquire attemptStart now result => s.acquire attemptStart now result
  | .watchdogCheck now => (s.watchdogCheck now, [])
  | .workerReturn succeeded => (s.workerReturn succeeded, [])
  | .collectWatchdog now => s.collectWatchdog mode now
  | .finish now => s.finish now

/-- A run: the state after the events, and the calls in order. -/
def run (mode : LockerMode) (s : LockerState) : List Event → LockerState × List StrategyCall
  | [] => (s, [])
  | e :: events =>
    let (s, calls) := step mode s e
    let (s, rest) := run mode s events
    (s, calls ++ rest)

/-- What a run has done with the backend, beside the locker's state: every successful
`Acquire`, latest first, with when it started and the `lock_ttl` it was passed, and whether one
of them is owed a `Release` (it was neither released nor dropped on a brain split). -/
structure Ghost where
  leases : List (Int × Int)
  owed : Bool
  deriving DecidableEq, Repr

/-- Nothing acquired yet. -/
def Ghost.initial : Ghost := ⟨[], false⟩

/-- The ghost after an event from the state `s`. -/
def Ghost.step (mode : LockerMode) (s : LockerState) (g : Ghost) : Event → Ghost
  | .acquire attemptStart _ .ok => ⟨(attemptStart, s.settings.lockTtl) :: g.leases, true⟩
  -- a brain split drops the lock without a `Release`
  | .acquire _ _ .acquiredByAnotherHost => { g with owed := g.owed && !s.isLocked }
  | e => { g with owed := g.owed && !(DistLock.step mode s e).2.contains .release }

/-- The ghost after the events of a run. -/
def Ghost.run (mode : LockerMode) (s : LockerState) (g : Ghost) : List Event → Ghost
  | [] => g
  | e :: events => Ghost.run mode (DistLock.step mode s e).1 (g.step mode s e) events

/-- The states of a `Locker` running in `mode` from `settings`, with their ghosts. -/
inductive Reachable (mode : LockerMode) (settings : DistLockSettings) :
    LockerState → Ghost → Prop where
  | init : Reachable mode settings (.initial settings) .initial
  | event {s : LockerState} {g : Ghost} (e : Event) :
      Reachable mode settings s g →
      Reachable mode settings (step mode s e).1 (g.step mode s e)

/-! ## What each step does to the lock -/

namespace LockerState

section Frame

variable (s : LockerState)

@[simp]
theorem exchangeLockState_fst (b : Bool) (when : Int) :
    (s.exchangeLockState b when).1 = s.isLocked := rfl

@[simp]
theorem exchangeLockState_isLocked (b : Bool) (when : Int) :
    (s.exchangeLockState b when).2.isLocked = b := by
  simp only [exchangeLockState]; split_ifs <;> rfl

@[simp]
theorem exchangeLockState_lockRefresh (b : Bool) (when : Int) :
    (s.exchangeLockState b when).2.lockRefresh = when := by
  simp only [exchangeLockState]; split_ifs <;> rfl

@[simp]
theorem exchangeLockState_watchdog (b : Bool) (when : Int) :
    (s.exchangeLockState b when).2.watchdog = s.watchdog := by
  simp only [exchangeLockState]; split_ifs <;> rfl

@[simp]
theorem exchangeLockState_settings (b : Bool) (when : Int) :
    (s.exchangeLockState b when).2.settings = s.settings := by
  simp only [exchangeLockState]; split_ifs <;> rfl

@[simp]
theorem tryUnlock_isLocked (now : Int) : (s.tryUnlock now).1.isLocked = false := by
  simp [tryUnlock]

@[simp]
theorem tryUnlock_watchdog (now : Int) : (s.tryUnlock now).1.watchdog = s.watchdog := by
  simp [tryUnlock]

/-- `TryUnlock` calls `Release` exactly when the lock was held. -/
@[simp]
theorem tryUnlock_calls (now : Int) :
    (s.tryUnlock now).2 = if s.isLocked then [.release] else [] := rfl

/-- The watchdog lets the worker run on exactly when the deadline has not passed. -/
theorem watchdogCheck_running_iff (now : Int) :
    (s.watchdogCheck now).watchdog = .running ↔ s.watchdog = .running ∧ now ≤ s.deadline := by
  unfold watchdogCheck
  split
  · rename_i h
    split_ifs with hlt
    · simp [h]; omega
    · simp [h]; omega
  · rename_i h
    exact ⟨fun hr => (h hr).elim, fun hr => (h hr.1).elim⟩

@[simp]
theorem watchdogCheck_isLocked (now : Int) : (s.watchdogCheck now).isLocked = s.isLocked := by
  unfold watchdogCheck; split <;> (try split_ifs) <;> rfl

@[simp]
theorem watchdogCheck_lockRefresh (now : Int) :
    (s.watchdogCheck now).lockRefresh = s.lockRefresh := by
  unfold watchdogCheck; split <;> (try split_ifs) <;> rfl

@[simp]
theorem workerReturn_isLocked (b : Bool) : (s.workerReturn b).isLocked = s.isLocked := by
  unfold workerReturn; split <;> rfl

@[simp]
theorem workerReturn_lockRefresh (b : Bool) :
    (s.workerReturn b).lockRefresh = s.lockRefresh := by
  unfold workerReturn; split <;> rfl

/-- Only an `Acquire` starts the worker: it is not running after its return. -/
theorem workerReturn_running (b : Bool) (h : (s.workerReturn b).watchdog = .running) :
    s.watchdog = .running := by
  unfold workerReturn at h
  split at h <;> simp_all

/-- A successful `Acquire` holds the lock from the start of the attempt. -/
@[simp]
theorem acquire_ok_isLocked (attemptStart now : Int) :
    (s.acquire attemptStart now .ok).1.isLocked = true := by
  simp only [acquire]
  split <;> simp

@[simp]
theorem acquire_ok_lockRefresh (attemptStart now : Int) :
    (s.acquire attemptStart now .ok).1.lockRefresh = attemptStart := by
  simp only [acquire]
  split <;> simp

end Frame

/-- What collecting a finished watchdog does to the lock: it drops it, with a `Release` when it
was held, or leaves it. -/
theorem collectWatchdog_cases (mode : LockerMode) (now : Int) (s : LockerState) :
    ((s.collectWatchdog mode now).1.isLocked = false ∧
        (s.collectWatchdog mode now).2 = if s.isLocked then [.release] else []) ∨
      ((s.collectWatchdog mode now).1.isLocked = s.isLocked ∧
        (s.collectWatchdog mode now).1.lockRefresh = s.lockRefresh ∧
        (s.collectWatchdog mode now).2 = []) := by
  unfold collectWatchdog
  split
  · dsimp only
    split
    · exact Or.inl ⟨tryUnlock_isLocked _ _, tryUnlock_calls _ _⟩
    · exact Or.inr ⟨rfl, rfl, rfl⟩
  · exact Or.inr ⟨rfl, rfl, rfl⟩

/-- Collecting a watchdog that still runs does nothing. -/
theorem collectWatchdog_of_running {mode : LockerMode} {now : Int} {s : LockerState}
    (h : s.watchdog = .running) : s.collectWatchdog mode now = (s, []) := by
  simp [collectWatchdog, h]

theorem collectWatchdog_running {mode : LockerMode} {now : Int} {s : LockerState}
    (h : (s.collectWatchdog mode now).1.watchdog = .running) : s.watchdog = .running := by
  unfold collectWatchdog at h
  split at h
  · split_ifs at h
    simp at h
  · exact h

end LockerState

@[simp]
theorem run_nil (mode : LockerMode) (s : LockerState) : run mode s [] = (s, []) := rfl

@[simp]
theorem run_cons_fst (mode : LockerMode) (s : LockerState) (e : Event) (events : List Event) :
    (run mode s (e :: events)).1 = (run mode (step mode s e).1 events).1 := rfl

/-! ## The invariant of a running locker -/

/-- What holds of every reachable state: the worker runs only under the lock, and while the
lock is held, the time the watchdog counts from is the start of the last successful `Acquire`
and that `Acquire` is owed a `Release`. -/
structure Invariant (s : LockerState) (g : Ghost) : Prop where
  running_locked : s.watchdog = .running → s.isLocked = true
  locked_lease : s.isLocked = true → ∃ ttl, g.leases.head? = some (s.lockRefresh, ttl)
  owed_eq : g.owed = s.isLocked

theorem Invariant.initial (settings : DistLockSettings) :
    Invariant (.initial settings) .initial where
  running_locked h := by simp [LockerState.initial] at h
  locked_lease h := by simp [LockerState.initial] at h
  owed_eq := rfl

/-- A step that starts no worker, takes no lock, and drops the lock exactly when it calls
`Release` keeps the invariant. -/
theorem Invariant.of_frame {s s' : LockerState} {g : Ghost} {calls : List StrategyCall}
    (hinv : Invariant s g)
    (hrun : s'.watchdog = .running → s.watchdog = .running ∧ s'.isLocked = s.isLocked)
    (hlock : s'.isLocked = true → s.isLocked = true ∧ s'.lockRefresh = s.lockRefresh)
    (hrel : s'.isLocked = (s.isLocked && !calls.contains .release)) :
    Invariant s' { g with owed := g.owed && !calls.contains .release } where
  running_locked h := by
    obtain ⟨hr, heq⟩ := hrun h
    rw [heq]
    exact hinv.running_locked hr
  locked_lease h := by
    obtain ⟨hl, hrefresh⟩ := hlock h
    rw [hrefresh]
    exact hinv.locked_lease hl
  owed_eq := by rw [hrel, hinv.owed_eq]

section Steps

variable {mode : LockerMode} {s : LockerState} {g : Ghost}

theorem Invariant.setSettings (hinv : Invariant s g) (settings : DistLockSettings) :
    Invariant (step mode s (.setSettings settings)).1 (g.step mode s (.setSettings settings)) :=
  hinv.of_frame (fun h => ⟨h, rfl⟩) (fun h => ⟨h, rfl⟩) (by simp [step])

theorem Invariant.watchdogCheck (hinv : Invariant s g) (now : Int) :
    Invariant (step mode s (.watchdogCheck now)).1 (g.step mode s (.watchdogCheck now)) := by
  refine hinv.of_frame (fun h => ⟨?_, ?_⟩) (fun h => ⟨?_, ?_⟩) ?_
  · exact ((LockerState.watchdogCheck_running_iff s now).1 h).1
  all_goals simp_all [step]

theorem Invariant.workerReturn (hinv : Invariant s g) (succeeded : Bool) :
    Invariant (step mode s (.workerReturn succeeded)).1
      (g.step mode s (.workerReturn succeeded)) := by
  refine hinv.of_frame (fun h => ⟨LockerState.workerReturn_running s succeeded h, ?_⟩)
    (fun h => ⟨?_, ?_⟩) ?_
  all_goals simp_all [step]

theorem Invariant.collectWatchdog (hinv : Invariant s g) (now : Int) :
    Invariant (step mode s (.collectWatchdog now)).1 (g.step mode s (.collectWatchdog now)) := by
  have hcases := LockerState.collectWatchdog_cases mode now s
  refine hinv.of_frame (fun h => ?_) (fun h => ?_) ?_
  · -- a worker still running means there was nothing to collect
    have hr := LockerState.collectWatchdog_running h
    simp [step, LockerState.collectWatchdog_of_running hr, hr]
  · rcases hcases with ⟨hl, -⟩ | ⟨hl, hr, -⟩
    · simp_all [step]
    · simp_all [step]
  · rcases hcases with ⟨hl, hc⟩ | ⟨hl, -, hc⟩
    · simp only [step, hl, hc]
      cases s.isLocked <;> simp
    · simp [step, hl, hc]

theorem Invariant.finish (hinv : Invariant s g) (now : Int) :
    Invariant (step mode s (.finish now)).1 (g.step mode s (.finish now)) := by
  refine hinv.of_frame ?_ ?_ ?_
  · simp [step, LockerState.finish]
  · simp [step, LockerState.finish]
  · simp only [step, LockerState.finish, LockerState.tryUnlock_isLocked,
      LockerState.tryUnlock_calls]
    cases s.isLocked <;> simp

theorem Invariant.acquire (hinv : Invariant s g) (attemptStart now : Int)
    (result : AcquireResult) :
    Invariant (step mode s (.acquire attemptStart now result)).1
      (g.step mode s (.acquire attemptStart now result)) := by
  cases result with
  | ok =>
    -- the lock is (re)taken from the start of this attempt, which becomes the last lease
    refine ⟨fun _ => ?_, fun _ => ⟨s.settings.lockTtl, ?_⟩, ?_⟩
    all_goals simp [step, Ghost.step]
  | acquiredByAnotherHost =>
    by_cases hl : s.isLocked = true
    · -- brain split: the watchdog is gone and the lock dropped, with nothing owed
      refine ⟨fun h => ?_, fun h => ?_, ?_⟩
      all_goals simp_all [step, LockerState.acquire, Ghost.step]
    · have hs : (step mode s (.acquire attemptStart now .acquiredByAnotherHost)).1 = s := by
        simp [step, LockerState.acquire, hl]
      rw [hs]
      refine ⟨hinv.running_locked, hinv.locked_lease, ?_⟩
      simp [Ghost.step, hl, hinv.owed_eq]
  | failed =>
    exact hinv.of_frame (fun h => ⟨h, rfl⟩) (fun h => ⟨h, rfl⟩) (by simp [step, LockerState.acquire])

end Steps

theorem Invariant.step {mode : LockerMode} {s : LockerState} {g : Ghost} (hinv : Invariant s g) :
    ∀ e : Event, Invariant (DistLock.step mode s e).1 (g.step mode s e)
  | .setSettings settings => hinv.setSettings settings
  | .acquire attemptStart now result => hinv.acquire attemptStart now result
  | .watchdogCheck now => hinv.watchdogCheck now
  | .workerReturn succeeded => hinv.workerReturn succeeded
  | .collectWatchdog now => hinv.collectWatchdog now
  | .finish now => hinv.finish now

theorem Reachable.invariant {mode : LockerMode} {settings : DistLockSettings} {s : LockerState}
    {g : Ghost} (h : Reachable mode settings s g) : Invariant s g := by
  induction h with
  | init => exact Invariant.initial settings
  | event e _ ih => exact ih.step e

theorem Reachable.run {mode : LockerMode} {settings : DistLockSettings} {s : LockerState}
    {g : Ghost} (h : Reachable mode settings s g) (events : List Event) :
    Reachable mode settings (DistLock.run mode s events).1 (g.run mode s events) := by
  induction events generalizing s g with
  | nil => exact h
  | cons e events ih => exact ih (h.event e)

/-! ## What the watchdog guarantees, and what it does not -/

/-- A check that lets the worker run on is covered, up to the next check `forced_stop_margin / 2`
later, by the last successful `Acquire`, provided the current `lock_ttl` is at most the one that
`Acquire` was passed. -/
theorem Reachable.check_covered {mode : LockerMode} {settings : DistLockSettings}
    {s : LockerState} {g : Ghost} (h : Reachable mode settings s g)
    (hmargin : 0 < s.settings.forcedStopMargin) {now t : Int}
    (hpass : (s.watchdogCheck now).watchdog = .running)
    (httl : ∀ lease ∈ g.leases.head?, s.settings.lockTtl ≤ lease.2)
    (ht : t ≤ now + s.settings.forcedStopMargin / 2) :
    ∃ lease ∈ g.leases, t < lease.1 + lease.2 := by
  have hinv := h.invariant
  obtain ⟨hrun, hdeadline⟩ := (LockerState.watchdogCheck_running_iff s now).1 hpass
  obtain ⟨ttl, hhead⟩ := hinv.locked_lease (hinv.running_locked hrun)
  have hle : s.settings.lockTtl ≤ ttl := httl _ hhead
  refine ⟨(s.lockRefresh, ttl), List.mem_of_mem_head? hhead, ?_⟩
  -- the deadline keeps a whole margin before the lease ends, the wait only half of it
  simp only [LockerState.deadline] at hdeadline
  omega

/-- When `Run` returns, the lock is released exactly when a successful `Acquire` was owed a
`Release`, and none is owed any more. -/
theorem Reachable.finish_releases {mode : LockerMode} {settings : DistLockSettings}
    {s : LockerState} {g : Ghost} (h : Reachable mode settings s g) (now : Int) :
    (step mode s (.finish now)).2 = (if g.owed then [.release] else []) ∧
      (g.step mode s (.finish now)).owed = false := by
  have howed := h.invariant.owed_eq
  constructor
  · simp [step, LockerState.finish, howed]
  · have hnext : Invariant (step mode s (.finish now)).1 (g.step mode s (.finish now)) :=
      h.invariant.step _
    rw [hnext.owed_eq]
    simp [step, LockerState.finish]

theorem run_append_fst (mode : LockerMode) (s : LockerState) (first rest : List Event) :
    (run mode s (first ++ rest)).1 = (run mode (run mode s first).1 rest).1 := by
  induction first generalizing s with
  | nil => rfl
  | cons e first ih => exact ih _

theorem Ghost.run_append (mode : LockerMode) (s : LockerState) (g : Ghost)
    (first rest : List Event) :
    g.run mode s (first ++ rest) =
      (g.run mode s first).run mode (DistLock.run mode s first).1 rest := by
  induction first generalizing s g with
  | nil => rfl
  | cons e first ih => exact ih _ _

/-- An `Acquire` that throws anything but `LockIsAcquiredByAnotherHostException` changes
nothing. -/
theorem step_acquire_failed (mode : LockerMode) (s : LockerState) (g : Ghost)
    (attemptStart now : Int) :
    (step mode s (.acquire attemptStart now .failed)).1 = s ∧
      g.step mode s (.acquire attemptStart now .failed) = g := by
  simp [step, LockerState.acquire, Ghost.step]

/-- A check by the deadline changes nothing. -/
theorem step_watchdogCheck_of_le (mode : LockerMode) (s : LockerState) (g : Ghost) {now : Int}
    (h : now ≤ s.deadline) :
    (step mode s (.watchdogCheck now)).1 = s ∧ g.step mode s (.watchdogCheck now) = g := by
  have hs : s.watchdogCheck now = s := by
    unfold LockerState.watchdogCheck
    split
    · rw [if_neg (by omega)]
    · rfl
  simp [step, Ghost.step, hs]

/-- The watchdog does not see `Acquire`s fail: a run of failed `Acquire`s and of checks by the
deadline leaves the locker, and the worker, as it was. -/
theorem run_failed_and_checks (mode : LockerMode) (s : LockerState) (g : Ghost) :
    ∀ events : List Event,
      (∀ e ∈ events, (∃ attemptStart now, e = .acquire attemptStart now .failed) ∨
        ∃ now, e = .watchdogCheck now ∧ now ≤ s.deadline) →
      (run mode s events).1 = s ∧ g.run mode s events = g
  | [], _ => ⟨rfl, rfl⟩
  | e :: events, h => by
    have he : (step mode s e).1 = s ∧ g.step mode s e = g := by
      rcases h e List.mem_cons_self with ⟨attemptStart, now, rfl⟩ | ⟨now, rfl, hle⟩
      · exact step_acquire_failed mode s g attemptStart now
      · exact step_watchdogCheck_of_le mode s g hle
    have ih := run_failed_and_checks mode s g events fun e' he' => h e' (List.mem_cons_of_mem e he')
    simp only [run_cons_fst, Ghost.run, he.1, he.2]
    exact ih

/-- `SetSettings` raising `lock_ttl` after an `Acquire` moves the watchdog's deadline past that
`Acquire`'s lease: with the default settings, an `Acquire` at 0 with `lock_ttl` 1000, the raise
to 10000, every later `Acquire` failing every 100 ms and the watchdog checking every 25 ms, the
worker still runs, never asked to cancel, at 2000, while every lease the backend granted ended
by 1000. -/
theorem worker_outlives_lease_after_ttl_raise :
    let raised : DistLockSettings := { DistLockSettings.default with lockTtl := 10000 }
    let events : List Event :=
      [.acquire 0 0 .ok, .watchdogCheck 0, .setSettings raised] ++
        (List.range 20).flatMap fun (k : Nat) =>
          let t : Int := 100 * (k : Int)
          [.watchdogCheck (t + 25), .watchdogCheck (t + 50), .watchdogCheck (t + 75),
            .acquire (t + 100) (t + 100) .failed, .watchdogCheck (t + 100)]
    let s := (run .kWorker (.initial .default) events).1
    let g := Ghost.run .kWorker (.initial .default) .initial events
    DistLockSettings.default.Valid ∧ raised.Valid ∧
      Reachable .kWorker .default s g ∧
      s.watchdog = .running ∧ g.leases = [(0, 1000)] ∧
      ∀ lease ∈ g.leases, lease.1 + lease.2 ≤ 2000 := by
  intro raised events s g
  -- after the `Acquire`, the first check and the raise, the deadline is 10000 - 50
  let started : LockerState := ⟨raised, true, 0, 0, .running⟩
  have hstart : (run .kWorker (.initial .default)
      [.acquire 0 0 .ok, .watchdogCheck 0, .setSettings raised]).1 = started := by decide
  have hghost : Ghost.run .kWorker (.initial .default) .initial
      [.acquire 0 0 .ok, .watchdogCheck 0, .setSettings raised] = ⟨[(0, 1000)], true⟩ := by decide
  have hquiet := run_failed_and_checks .kWorker started ⟨[(0, 1000)], true⟩
    ((List.range 20).flatMap fun (k : Nat) =>
      let t : Int := 100 * (k : Int)
      [.watchdogCheck (t + 25), .watchdogCheck (t + 50), .watchdogCheck (t + 75),
        .acquire (t + 100) (t + 100) .failed, .watchdogCheck (t + 100)]) (by
    intro e he
    simp only [List.mem_flatMap, List.mem_range, List.mem_cons, List.not_mem_nil,
      or_false] at he
    obtain ⟨k, hk, he⟩ := he
    have hdeadline : started.deadline = 9950 := rfl
    rcases he with rfl | rfl | rfl | rfl | rfl
    · exact Or.inr ⟨_, rfl, by omega⟩
    · exact Or.inr ⟨_, rfl, by omega⟩
    · exact Or.inr ⟨_, rfl, by omega⟩
    · exact Or.inl ⟨_, _, rfl⟩
    · exact Or.inr ⟨_, rfl, by omega⟩)
  have hs : s = started := by
    simp only [s, events, run_append_fst, hstart, hquiet.1]
  have hg : g = ⟨[(0, 1000)], true⟩ := by
    simp only [g, events, Ghost.run_append, hstart, hghost, hquiet.2]
  refine ⟨by decide, by decide, Reachable.init.run events, by rw [hs], by rw [hg], ?_⟩
  intro lease hlease
  rw [hg, List.mem_singleton] at hlease
  rw [hlease]
  decide

end DistLock

end Userver
