import Userver.Cache.Config

/-!
# Which update a cache makes next

`CacheUpdateTrait::Impl` (`cache_update_trait_impl.cpp`) runs the updates of a cache.  Each
periodic step (`DoPeriodicUpdate`) either skips, when updates are disabled, or picks an update
type (`NextUpdateType`) and runs the customized `Update` (`DoUpdate`).  The choice reads five
members:

* `dump_first_update_type_`, set when `StartPeriodicUpdates` loads a dump and cleared by the
  next successful update, comes first;
* `last_update_` at its zero value means no update ever succeeded: a full update;
* `force_full_update_`, set by `InvalidateAsync(kFull)` and cleared by a successful full update;
* the allowed update types of the config;
* for full and incremental updates, `last_full_update_` and a jitter
  `generated_full_update_jitter_`, drawn once the time is within the largest jitter of the full
  update interval and kept until the next successful full update.

The model is a state machine: `startPeriodicUpdates` from the state the requests before the
start left, then any sequence of `Event`s.  `Reachable` collects its states with what the
history says of them (whether a dump was loaded and whether an update has succeeded since), and
`Invariant` is what every reachable state satisfies.  On it rest the facts of the update type:
before any success it is full, or the dump's type (`nextUpdateType_before_success`); under
`kOnlyFull` it is always full (`nextUpdateType_onlyFull_reachable`); after `InvalidateAsync(kFull)`
it is full unless an incremental dump type is still pending
(`nextUpdateType_after_invalidate`), which is the precedence the member's comment documents; and
under full and incremental updates a full update is due exactly past the last full update plus the
interval plus the one drawn jitter (`nextUpdateType_fullAndIncremental`).  `update_type_schedule`
gathers them for every config the constructor accepts; `invalidate_full_waits_for_incremental_dump`
is a run in which the update after `InvalidateAsync(kFull)` is incremental.

Alerts, statistics, logging, the dumper and the periodic task's settings are left out; an update
is one step, and an `InvalidateAsync` that another task makes while an update runs is ordered
before or after it.
-/

namespace Userver

namespace Cache

/-- `utils::RandRange(from_inclusive, to_exclusive)`, with `seed` the draw of the generator: as
`seed` ranges over the naturals the value covers the range evenly. -/
def randRange (fromInclusive toExclusive : Int) (seed : Nat) : Int :=
  fromInclusive + (seed : Int) % (toExclusive - fromInclusive)

theorem randRange_mem {lo hi : Int} (h : lo < hi) (seed : Nat) :
    lo ≤ randRange lo hi seed ∧ randRange lo hi seed < hi := by
  have hpos : 0 < hi - lo := by omega
  have hlo := Int.emod_nonneg (seed : Int) (ne_of_gt hpos)
  have hhi := Int.emod_lt_of_pos (seed : Int) hpos
  unfold randRange
  omega

/-- `CacheUpdateTrait::Impl::FirstUpdateInvalidation`. -/
inductive FirstUpdateInvalidation where
  | kNo
  | kYes
  | kFinished
  deriving DecidableEq, Repr

/-- The members of `CacheUpdateTrait::Impl` that the update steps read and write.  Time points are
in milliseconds: `lastUpdate` on the system clock, whose zero is `dump::TimePoint{}`, and
`lastFullUpdate` on the steady clock. -/
structure UpdateState where
  isRunning : Bool
  firstUpdateAttempted : Bool
  lastUpdate : Nat
  lastFullUpdate : Int
  generatedFullUpdateJitter : Option Int
  failedUpdatesCounter : Nat
  firstUpdateInvalidation : FirstUpdateInvalidation
  dumpFirstUpdateType : Option UpdateType
  forceFullUpdate : Bool
  deriving DecidableEq, Repr

/-- The members as the constructor leaves them. -/
def UpdateState.initial : UpdateState := ⟨false, false, 0, 0, none, 0, .kNo, none, false⟩

/-- What the customized `Update` does, as `DoUpdate` and `CheckUpdateState` see it: it finishes
(with `kSuccess`, or with `kNotFinished`, which is only logged), reports no changes, or fails (it
throws, or finishes with `kFailure`, which `CheckUpdateState` throws). -/
inductive UpdateOutcome where
  | success
  | noChanges
  | failure
  deriving DecidableEq, Repr

/-- One update step: the steady and the system clock when `DoUpdate` reads them, the draw the
jitter takes if it is drawn, and what `Update` does.  The system clock reads after its zero. -/
structure Attempt where
  steadyNow : Int
  now : Nat
  now_pos : 0 < now
  seed : Nat
  outcome : UpdateOutcome

/-- What one `DoPeriodicUpdate` did: the type of its update (`none` when it skipped), whether the
update succeeded, and whether it marked the cache as expired. -/
structure Report where
  updateType : Option UpdateType
  succeeded : Bool
  markedAsExpired : Bool
  deriving DecidableEq, Repr

variable (config : Config)

/-- The draw of `NextUpdateType`: a jitter in `[-full_update_jitter, full_update_jitter]` once the
time is past the last full update plus the interval less the largest jitter, if none is drawn
yet. -/
def generateJitter (steadyNow : Int) (seed : Nat) (s : UpdateState) : Option Int :=
  let jitter : Int := config.fullUpdateJitter
  if s.generatedFullUpdateJitter.isNone ∧
      steadyNow ≥ s.lastFullUpdate + config.fullUpdateInterval - jitter then
    some (randRange (-jitter) (jitter + 1) seed)
  else s.generatedFullUpdateJitter

/-- `NextUpdateType`: the update type, and the state with the jitter it may have drawn. -/
def nextUpdateType (steadyNow : Int) (seed : Nat) (s : UpdateState) : UpdateType × UpdateState :=
  match s.dumpFirstUpdateType with
  | some updateType => (updateType, s)
  | none =>
    if s.lastUpdate = 0 then (.kFull, s)
    else if s.forceFullUpdate then (.kFull, s)
    else
      match config.allowedUpdateTypes with
      | .kOnlyFull => (.kFull, s)
      | .kOnlyIncremental => (.kIncremental, s)
      | .kFullAndIncremental =>
        let s := { s with generatedFullUpdateJitter := generateJitter config steadyNow seed s }
        match s.generatedFullUpdateJitter with
        | some jitter =>
          if steadyNow ≥ s.lastFullUpdate + config.fullUpdateInterval + jitter then (.kFull, s)
          else (.kIncremental, s)
        | none => (.kIncremental, s)

/-- `OnUpdateSkipped`: one more failed update; `MarkAsExpired` when the count reaches
`failed_updates_before_expiration`. -/
def onUpdateSkipped (s : UpdateState) : UpdateState × Bool :=
  let s := { s with failedUpdatesCounter := s.failedUpdatesCounter + 1 }
  (s, config.failedUpdatesBeforeExpiration == some s.failedUpdatesCounter)

/-- `OnUpdateFailure`: `OnUpdateSkipped`, and an alert the model leaves out. -/
def onUpdateFailure (s : UpdateState) : UpdateState × Bool := onUpdateSkipped config s

/-- `DoUpdate` of the type `updateType`. -/
def doUpdate (updateType : UpdateType) (a : Attempt) (s : UpdateState) : UpdateState × Report :=
  match a.outcome with
  | .failure =>
    let (s, expired) := onUpdateFailure config s
    (s, ⟨some updateType, false, expired⟩)
  | .success | .noChanges =>
    let s := if updateType = .kFull then
        { s with forceFullUpdate := false, generatedFullUpdateJitter := none,
                 lastFullUpdate := a.steadyNow }
      else s
    ({ s with dumpFirstUpdateType := none, failedUpdatesCounter := 0, lastUpdate := a.now },
      ⟨some updateType, true, false⟩)

/-- `DoPeriodicUpdate`. -/
def doPeriodicUpdate (a : Attempt) (s : UpdateState) : UpdateState × Report :=
  let isFirstUpdate := !s.firstUpdateAttempted
  let s := { s with firstUpdateAttempted := true }
  -- updates disabled by the config are skipped, except a first update the cache needs
  if !config.updatesEnabled && (!isFirstUpdate || config.allowFirstUpdateFailure) then
    let (s, expired) := onUpdateSkipped config s
    (s, ⟨none, false, expired⟩)
  else
    let (updateType, s) := nextUpdateType config a.steadyNow a.seed s
    doUpdate config updateType a s

/-- `InvalidateAsync`: the state after the request, and whether `DoInvalidateAsync` forces an
update step now; before the start ends, the request waits for it. -/
def invalidateAsync (updateType : UpdateType) (s : UpdateState) : UpdateState × Bool :=
  let updateType :=
    if config.allowedUpdateTypes = .kOnlyFull ∧ updateType = .kIncremental then .kFull
    else updateType
  let s := if updateType = .kFull then { s with forceFullUpdate := true } else s
  -- compare_exchange_strong(kNo, kYes) leaves the old value in `actual`
  let actual := s.firstUpdateInvalidation
  let s := if actual = .kNo then { s with firstUpdateInvalidation := .kYes } else s
  (s, actual = .kFinished)

/-- The exception `StartPeriodicUpdates` lets through: a first update the cache cannot do
without failed. -/
inductive StartError where
  | firstUpdateFailed
  deriving DecidableEq, Repr

/-- The update type a loaded dump asks for first. -/
def dumpUpdateType (firstUpdateType : FirstUpdateType) : UpdateType :=
  if firstUpdateType = .kFull then .kFull else .kIncremental

/-- The dump part of `StartPeriodicUpdates`, with `dumpTime` what `ReadDump` gave. -/
def loadDump (dumpTime : Option Nat) (s : UpdateState) : UpdateState :=
  match dumpTime with
  | some time =>
    { s with lastUpdate := time, dumpFirstUpdateType := some (dumpUpdateType config.firstUpdateType) }
  | none => s

/-- The synchronous first update of `StartPeriodicUpdates`: a failure is let through unless a
dump was loaded and the first update is not required, or the config allows it to fail. -/
def runFirstUpdate (dumpLoaded : Bool) (first : Attempt) (s : UpdateState) :
    Except StartError (UpdateState × Report) :=
  let (s, report) := doPeriodicUpdate config first { s with firstUpdateInvalidation := .kNo }
  -- `DoPeriodicUpdate` throws exactly when it ran an update that failed
  if report.updateType.isSome ∧ !report.succeeded then
    if (dumpLoaded ∧ config.firstUpdateMode ≠ .kRequired) ∨ config.allowFirstUpdateFailure then
      pure (s, report)
    else throw .firstUpdateFailed
  else pure (s, report)

/-- The end of `StartPeriodicUpdates`: after a dump with `kIncrementalThenAsyncFull` a full
update comes next, and from now on an invalidation no longer waits for the start. -/
def finishStart (dumpLoaded : Bool) (s : UpdateState) : UpdateState :=
  let s := if dumpLoaded ∧ config.firstUpdateType = .kIncrementalThenAsyncFull then
      { s with dumpFirstUpdateType := some .kFull }
    else s
  { s with firstUpdateInvalidation := .kFinished }

/-- `StartPeriodicUpdates`: the state after the start and the report of its first update, if it
made one.  An invalidation during the first update (`kYes`) makes `DoInvalidateAsync` force a
step at once, which is an `Event` of the run. -/
def startPeriodicUpdates (periodicUpdateEnabled noFirstUpdate : Bool) (dumpTime : Option Nat)
    (first : Attempt) (s : UpdateState) : Except StartError (UpdateState × Option Report) :=
  if s.isRunning then pure (s, none)
  else do
    let s := loadDump config dumpTime { s with isRunning := true }
    let (s, report) ← (if (s.lastUpdate = 0 ∨ config.firstUpdateMode ≠ .kSkip) ∧
          (!noFirstUpdate || !periodicUpdateEnabled) then
        (fun (s, report) => (s, some report)) <$> runFirstUpdate config dumpTime.isSome first s
      else pure (s, none) : Except StartError (UpdateState × Option Report))
    pure (finishStart config dumpTime.isSome s, report)

/-- What happens to a started cache. -/
inductive Event where
  | invalidateAsync (updateType : UpdateType)
  | periodicUpdate (attempt : Attempt)

/-- One event: the state after it, and the report of the update step it made. -/
def step (s : UpdateState) : Event → UpdateState × Option Report
  | .invalidateAsync updateType => ((invalidateAsync config updateType s).1, none)
  | .periodicUpdate a =>
    let (s, report) := doPeriodicUpdate config a s
    (s, some report)

/-- The states of a started cache: `dump` is what `ReadDump` gave at the start, and `succeeded`
whether an update has succeeded since.  Before the start, any requests may have come. -/
inductive Reachable (dump : Option Nat) : UpdateState → Bool → Prop where
  | start {requests : List UpdateType} {periodicUpdateEnabled noFirstUpdate : Bool}
      {first : Attempt} {s : UpdateState} {report : Option Report}
      (h : startPeriodicUpdates config periodicUpdateEnabled noFirstUpdate dump first
        (requests.foldl (fun s updateType => (invalidateAsync config updateType s).1) .initial) =
          .ok (s, report)) :
      Reachable dump s (report.any (·.succeeded))
  | event {s : UpdateState} {succeeded : Bool} (e : Event) :
      Reachable dump s succeeded →
      Reachable dump (step config s e).1 (succeeded || (step config s e).2.any (·.succeeded))

/-- A report of a successful full update. -/
def Report.fullSuccess (r : Report) : Bool := r.succeeded && r.updateType == some .kFull

/-! ### The choice of the update type -/

variable {config}

theorem nextUpdateType_of_dumpType {s : UpdateState} {t : UpdateType}
    (h : s.dumpFirstUpdateType = some t) (steadyNow : Int) (seed : Nat) :
    (nextUpdateType config steadyNow seed s).1 = t := by
  simp [nextUpdateType, h]

theorem nextUpdateType_of_lastUpdate {s : UpdateState} (hdump : s.dumpFirstUpdateType = none)
    (hlast : s.lastUpdate = 0) (steadyNow : Int) (seed : Nat) :
    (nextUpdateType config steadyNow seed s).1 = .kFull := by
  simp [nextUpdateType, hdump, hlast]

/-- A forced full update waits only for a pending dump type. -/
theorem nextUpdateType_of_force {s : UpdateState} (hforce : s.forceFullUpdate = true)
    (steadyNow : Int) (seed : Nat) :
    (nextUpdateType config steadyNow seed s).1 = s.dumpFirstUpdateType.getD .kFull := by
  cases hdump : s.dumpFirstUpdateType with
  | some t => exact nextUpdateType_of_dumpType hdump steadyNow seed
  | none => simp [nextUpdateType, hdump, hforce]

theorem nextUpdateType_of_onlyFull {s : UpdateState}
    (hallowed : config.allowedUpdateTypes = .kOnlyFull)
    (hdump : s.dumpFirstUpdateType ≠ some .kIncremental) (steadyNow : Int) (seed : Nat) :
    (nextUpdateType config steadyNow seed s).1 = .kFull := by
  cases h : s.dumpFirstUpdateType with
  | some t =>
    rw [nextUpdateType_of_dumpType h]
    cases t with
    | kFull => rfl
    | kIncremental => exact absurd h hdump
  | none => simp [nextUpdateType, h, hallowed]

/-- `NextUpdateType` changes nothing but the jitter, and that only to the draw. -/
theorem nextUpdateType_state (steadyNow : Int) (seed : Nat) (s : UpdateState) :
    (nextUpdateType config steadyNow seed s).2 = s ∨
      (nextUpdateType config steadyNow seed s).2 =
        { s with generatedFullUpdateJitter := generateJitter config steadyNow seed s } := by
  unfold nextUpdateType
  split
  · exact .inl rfl
  · split_ifs
    · exact .inl rfl
    · exact .inl rfl
    · split
      · exact .inl rfl
      · exact .inl rfl
      · dsimp only
        split
        · split_ifs <;> exact .inr rfl
        · exact .inr rfl

/-- The time of a full update under full and incremental updates: past the last full update, the
interval and the drawn jitter. -/
theorem nextUpdateType_fullAndIncremental {s : UpdateState}
    (hallowed : config.allowedUpdateTypes = .kFullAndIncremental)
    (hdump : s.dumpFirstUpdateType = none) (hlast : s.lastUpdate ≠ 0)
    (hforce : s.forceFullUpdate = false) (steadyNow : Int) (seed : Nat) :
    (nextUpdateType config steadyNow seed s).1 = .kFull ↔
      ∃ g, generateJitter config steadyNow seed s = some g ∧
        s.lastFullUpdate + config.fullUpdateInterval + g ≤ steadyNow := by
  simp only [nextUpdateType, hdump, hlast, hforce, hallowed, if_false, Bool.false_eq_true]
  cases hg : generateJitter config steadyNow seed s with
  | none => simp
  | some g => by_cases hdue : s.lastFullUpdate + config.fullUpdateInterval + g ≤ steadyNow <;> simp [hdue]

/-! ### The jitter -/

variable (config) in
/-- Every drawn jitter lies within the config's jitter. -/
def JitterInRange (s : UpdateState) : Prop :=
  ∀ g, s.generatedFullUpdateJitter = some g →
    -(config.fullUpdateJitter : Int) ≤ g ∧ g ≤ config.fullUpdateJitter

theorem generateJitter_of_some {s : UpdateState} {g : Int}
    (h : s.generatedFullUpdateJitter = some g) (steadyNow : Int) (seed : Nat) :
    generateJitter config steadyNow seed s = some g := by
  simp [generateJitter, h]

theorem generateJitter_mem {s : UpdateState} (hs : JitterInRange config s) (steadyNow : Int)
    (seed : Nat) (g : Int) (hg : generateJitter config steadyNow seed s = some g) :
    -(config.fullUpdateJitter : Int) ≤ g ∧ g ≤ config.fullUpdateJitter := by
  simp only [generateJitter] at hg
  split_ifs at hg
  · cases hg
    have hmem := randRange_mem (by omega : -(config.fullUpdateJitter : Int) < config.fullUpdateJitter + 1) seed
    omega
  · exact hs g hg

theorem JitterInRange.nextUpdateType {s : UpdateState} (hs : JitterInRange config s)
    (steadyNow : Int) (seed : Nat) :
    JitterInRange config (nextUpdateType config steadyNow seed s).2 := by
  rcases nextUpdateType_state steadyNow seed s with h | h <;> rw [h]
  · exact hs
  · exact generateJitter_mem hs steadyNow seed

/-! ### One update step -/

variable (config) in
/-- The state after a step that made no successful update: the first update counts as attempted,
one more failure is counted, and the jitter may have been drawn. -/
def failedState (s : UpdateState) (j : Option Int) : UpdateState :=
  { s with firstUpdateAttempted := true, failedUpdatesCounter := s.failedUpdatesCounter + 1,
           generatedFullUpdateJitter := j }

/-- The state after a successful update of type `t`. -/
def succeededState (a : Attempt) (t : UpdateType) (s : UpdateState) (j : Option Int) :
    UpdateState :=
  if t = .kFull then
    { s with firstUpdateAttempted := true, forceFullUpdate := false,
             generatedFullUpdateJitter := none, lastFullUpdate := a.steadyNow,
             dumpFirstUpdateType := none, failedUpdatesCounter := 0, lastUpdate := a.now }
  else
    { s with firstUpdateAttempted := true, generatedFullUpdateJitter := j,
             dumpFirstUpdateType := none, failedUpdatesCounter := 0, lastUpdate := a.now }

@[simp] theorem succeededState_dumpFirstUpdateType (a : Attempt) (t : UpdateType)
    (s : UpdateState) (j : Option Int) : (succeededState a t s j).dumpFirstUpdateType = none := by
  unfold succeededState
  split_ifs <;> rfl

@[simp] theorem succeededState_lastUpdate (a : Attempt) (t : UpdateType) (s : UpdateState)
    (j : Option Int) : (succeededState a t s j).lastUpdate = a.now := by
  unfold succeededState
  split_ifs <;> rfl

theorem doUpdate_failure {t : UpdateType} {a : Attempt} (s : UpdateState)
    (h : a.outcome = .failure) :
    doUpdate config t a s = ({ s with failedUpdatesCounter := s.failedUpdatesCounter + 1 },
      ⟨some t, false, config.failedUpdatesBeforeExpiration == some (s.failedUpdatesCounter + 1)⟩) := by
  simp [doUpdate, h, onUpdateFailure, onUpdateSkipped]

theorem doUpdate_success {t : UpdateType} {a : Attempt} (s : UpdateState)
    (h : a.outcome ≠ .failure) :
    doUpdate config t a s = (if t = .kFull then
        { s with forceFullUpdate := false, generatedFullUpdateJitter := none,
                 lastFullUpdate := a.steadyNow, dumpFirstUpdateType := none,
                 failedUpdatesCounter := 0, lastUpdate := a.now }
      else { s with dumpFirstUpdateType := none, failedUpdatesCounter := 0, lastUpdate := a.now },
      ⟨some t, true, false⟩) := by
  unfold doUpdate
  split
  · exact absurd ‹_› h
  all_goals split_ifs <;> rfl

/-- Everything one `DoPeriodicUpdate` can do: count a skipped or failed update, or make a
successful one; `NextUpdateType` may draw the jitter on the way. -/
theorem doPeriodicUpdate_cases (a : Attempt) (s : UpdateState) :
    ∃ j, (j = s.generatedFullUpdateJitter ∨ j = generateJitter config a.steadyNow a.seed s) ∧
      ((doPeriodicUpdate config a s).1 = failedState s j ∧
          (doPeriodicUpdate config a s).2.succeeded = false ∧
          (doPeriodicUpdate config a s).2.markedAsExpired =
            (config.failedUpdatesBeforeExpiration == some (s.failedUpdatesCounter + 1)) ∨
        ∃ t, (doPeriodicUpdate config a s).1 = succeededState a t s j ∧
          (doPeriodicUpdate config a s).2 = ⟨some t, true, false⟩) := by
  simp only [doPeriodicUpdate]
  split_ifs with hskip
  · exact ⟨s.generatedFullUpdateJitter, .inl rfl, .inl ⟨rfl, rfl, rfl⟩⟩
  · -- the update `NextUpdateType` picks, from the state with the jitter it may draw
    obtain ⟨j, hj, hnext⟩ : ∃ j, (j = s.generatedFullUpdateJitter ∨
        j = generateJitter config a.steadyNow a.seed s) ∧
        (nextUpdateType config a.steadyNow a.seed { s with firstUpdateAttempted := true }).2 =
          { s with firstUpdateAttempted := true, generatedFullUpdateJitter := j } := by
      rcases nextUpdateType_state a.steadyNow a.seed { s with firstUpdateAttempted := true }
        with h | h
      · exact ⟨_, .inl rfl, h⟩
      · exact ⟨_, .inr rfl, h⟩
    refine ⟨j, hj, ?_⟩
    rw [hnext]
    by_cases hout : a.outcome = .failure
    · rw [doUpdate_failure _ hout]
      exact .inl ⟨rfl, rfl, rfl⟩
    · rw [doUpdate_success _ hout]
      refine .inr ⟨_, ?_, rfl⟩
      unfold succeededState
      split_ifs <;> rfl

theorem doPeriodicUpdate_updateType (a : Attempt) (s : UpdateState) :
    (doPeriodicUpdate config a s).2.updateType = none ∨
      (doPeriodicUpdate config a s).2.updateType =
        some (nextUpdateType config a.steadyNow a.seed { s with firstUpdateAttempted := true }).1 := by
  simp only [doPeriodicUpdate]
  split_ifs
  · exact .inl rfl
  · refine .inr ?_
    by_cases hout : a.outcome = .failure
    · rw [doUpdate_failure _ hout]
    · rw [doUpdate_success _ hout]

/-- `InvalidateAsync` forces a full update when the request is full, or when only full updates
are allowed, and notes a request that came before the start ended. -/
theorem invalidateAsync_fst (t : UpdateType) (s : UpdateState) :
    (invalidateAsync config t s).1 =
      { s with
        forceFullUpdate :=
          s.forceFullUpdate || (t == .kFull || config.allowedUpdateTypes == .kOnlyFull)
        firstUpdateInvalidation :=
          if s.firstUpdateInvalidation = .kNo then .kYes else s.firstUpdateInvalidation } := by
  obtain ⟨_, _, _, _, _, _, invalidation, _, _⟩ := s
  cases t <;> cases h : config.allowedUpdateTypes <;> cases invalidation <;>
    simp +decide [invalidateAsync, h]

theorem step_invalidateAsync (t : UpdateType) (s : UpdateState) :
    step config s (.invalidateAsync t) = ((invalidateAsync config t s).1, none) := rfl

theorem step_periodicUpdate (a : Attempt) (s : UpdateState) :
    step config s (.periodicUpdate a) =
      ((doPeriodicUpdate config a s).1, some (doPeriodicUpdate config a s).2) := rfl

/-! ### What every reachable state satisfies -/

/-- The dump type still pending once the start is over: `kIncrementalThenAsyncFull` asks for a
full update after its incremental first one. -/
def pendingDumpType (firstUpdateType : FirstUpdateType) : UpdateType :=
  if firstUpdateType = .kIncremental then .kIncremental else .kFull

theorem dumpUpdateType_eq_pending {firstUpdateType : FirstUpdateType}
    (h : firstUpdateType ≠ .kIncrementalThenAsyncFull) :
    dumpUpdateType firstUpdateType = pendingDumpType firstUpdateType := by
  cases firstUpdateType <;> simp_all [dumpUpdateType, pendingDumpType]

variable (config) in
/-- The invariant of a started cache that loaded `dump` and has had a successful update if
`succeeded`: a pending dump type is the config's, and until the first success it is the dump's
(or, with no dump, the cache has never been updated); after a success the cache has been updated
and no incremental dump type is pending; a drawn jitter is within range. -/
structure Invariant (dump : Option Nat) (s : UpdateState) (succeeded : Bool) : Prop where
  dumpType : s.dumpFirstUpdateType = none ∨
    s.dumpFirstUpdateType = some (pendingDumpType config.firstUpdateType)
  pending : succeeded = false →
    s.dumpFirstUpdateType = dump.map fun _ => pendingDumpType config.firstUpdateType
  neverUpdated : succeeded = false → dump = none → s.lastUpdate = 0
  updated : succeeded = true → 0 < s.lastUpdate ∧ s.dumpFirstUpdateType ≠ some .kIncremental
  jitter : JitterInRange config s

variable {dump : Option Nat}

/-- A step that keeps the pending dump type and the last update keeps the invariant. -/
theorem Invariant.of_kept {s s' : UpdateState} {succeeded : Bool}
    (h : Invariant config dump s succeeded)
    (hdump : s'.dumpFirstUpdateType = s.dumpFirstUpdateType) (hlast : s'.lastUpdate = s.lastUpdate)
    (hjitter : JitterInRange config s') : Invariant config dump s' succeeded where
  dumpType := hdump ▸ h.dumpType
  pending hs := hdump ▸ h.pending hs
  neverUpdated hs hd := hlast ▸ h.neverUpdated hs hd
  updated hs := hdump ▸ hlast ▸ h.updated hs
  jitter := hjitter

/-- A successful update establishes the invariant of an updated cache. -/
theorem Invariant.of_success {s' : UpdateState} (hdump : s'.dumpFirstUpdateType = none)
    (hlast : 0 < s'.lastUpdate) (hjitter : JitterInRange config s') :
    Invariant config dump s' true where
  dumpType := .inl hdump
  pending hs := by cases hs
  neverUpdated hs := by cases hs
  updated _ := ⟨hlast, by rw [hdump]; simp⟩
  jitter := hjitter

theorem JitterInRange.failed {s : UpdateState} (hs : JitterInRange config s) {a : Attempt}
    {j : Option Int}
    (hj : j = s.generatedFullUpdateJitter ∨ j = generateJitter config a.steadyNow a.seed s) :
    JitterInRange config (failedState s j) := by
  rcases hj with rfl | rfl
  · exact hs
  · exact generateJitter_mem hs a.steadyNow a.seed

theorem JitterInRange.succeeded {s : UpdateState} (hs : JitterInRange config s) {a : Attempt}
    {j : Option Int}
    (hj : j = s.generatedFullUpdateJitter ∨ j = generateJitter config a.steadyNow a.seed s)
    (t : UpdateType) : JitterInRange config (succeededState a t s j) := by
  unfold succeededState
  split_ifs
  · intro g hg; cases hg
  · exact hs.failed hj

/-- One update step keeps the invariant. -/
theorem Invariant.doPeriodicUpdate {s : UpdateState} {succeeded : Bool}
    (h : Invariant config dump s succeeded) (a : Attempt) :
    Invariant config dump (doPeriodicUpdate config a s).1
      (succeeded || (doPeriodicUpdate config a s).2.succeeded) := by
  obtain ⟨j, hj, ⟨hs, hok, -⟩ | ⟨t, hs, hr⟩⟩ := doPeriodicUpdate_cases a s
  · rw [hok, Bool.or_false, hs]
    exact h.of_kept rfl rfl (h.jitter.failed hj)
  · rw [hr, Bool.or_true, hs]
    exact Invariant.of_success (by simp) (by simp [a.now_pos]) (h.jitter.succeeded hj t)

theorem Invariant.step {s : UpdateState} {succeeded : Bool}
    (h : Invariant config dump s succeeded) (e : Event) :
    Invariant config dump (step config s e).1
      (succeeded || (step config s e).2.any (·.succeeded)) := by
  cases e with
  | invalidateAsync t =>
    rw [step_invalidateAsync, Option.any_none, Bool.or_false]
    exact h.of_kept (by rw [invalidateAsync_fst]) (by rw [invalidateAsync_fst])
      (by rw [invalidateAsync_fst]; exact h.jitter)
  | periodicUpdate a =>
    rw [step_periodicUpdate, Option.any_some]
    exact h.doPeriodicUpdate a

/-! ### The start -/

/-- What the requests before the start leave as the constructor set it. -/
structure Fresh (s : UpdateState) : Prop where
  notRunning : s.isRunning = false
  neverUpdated : s.lastUpdate = 0
  noJitter : s.generatedFullUpdateJitter = none
  noDumpType : s.dumpFirstUpdateType = none

theorem Fresh.invalidateAsync {s : UpdateState} (h : Fresh s) (t : UpdateType) :
    Fresh (invalidateAsync config t s).1 := by
  rw [invalidateAsync_fst]
  exact ⟨h.notRunning, h.neverUpdated, h.noJitter, h.noDumpType⟩

/-- Requests before the start leave the state fresh; by induction on the requests, from any
fresh state. -/
theorem fresh_requests (requests : List UpdateType) :
    Fresh (requests.foldl (fun s t => (invalidateAsync config t s).1) .initial) := by
  suffices h : ∀ s, Fresh s →
      Fresh (requests.foldl (fun s t => (invalidateAsync config t s).1) s) from
    h _ ⟨rfl, rfl, rfl, rfl⟩
  induction requests with
  | nil => exact fun _ h => h
  | cons t requests ih => exact fun s h => ih _ (h.invalidateAsync t)

@[simp] theorem loadDump_dumpFirstUpdateType (dumpTime : Option Nat) (s : UpdateState) :
    (loadDump config dumpTime s).dumpFirstUpdateType =
      match dumpTime with
      | some _ => some (dumpUpdateType config.firstUpdateType)
      | none => s.dumpFirstUpdateType := by
  cases dumpTime <;> rfl

@[simp] theorem loadDump_lastUpdate (dumpTime : Option Nat) (s : UpdateState) :
    (loadDump config dumpTime s).lastUpdate = dumpTime.getD s.lastUpdate := by
  cases dumpTime <;> rfl

@[simp] theorem loadDump_generatedFullUpdateJitter (dumpTime : Option Nat) (s : UpdateState) :
    (loadDump config dumpTime s).generatedFullUpdateJitter = s.generatedFullUpdateJitter := by
  cases dumpTime <;> rfl

theorem runFirstUpdate_ok {dumpLoaded : Bool} {a : Attempt} {s : UpdateState}
    {p : UpdateState × Report} (h : runFirstUpdate config dumpLoaded a s = .ok p) :
    p = doPeriodicUpdate config a { s with firstUpdateInvalidation := .kNo } := by
  unfold runFirstUpdate at h
  generalize doPeriodicUpdate config a { s with firstUpdateInvalidation := .kNo } = q at h ⊢
  dsimp only at h
  split_ifs at h <;> exact (Except.ok.inj h).symm

/-- Everything a start from a state that is not running does: load the dump, make the first
update or not, and finish. -/
theorem startPeriodicUpdates_cases {periodicUpdateEnabled noFirstUpdate : Bool}
    {first : Attempt} {s₀ s : UpdateState} {report : Option Report}
    (hrun : s₀.isRunning = false)
    (h : startPeriodicUpdates config periodicUpdateEnabled noFirstUpdate dump first s₀ =
      .ok (s, report)) :
    ∃ s₂, (report = none ∧ s₂ = loadDump config dump { s₀ with isRunning := true } ∨
        (s₂, report) = (fun p => (p.1, some p.2)) (doPeriodicUpdate config first
          { loadDump config dump { s₀ with isRunning := true } with
            firstUpdateInvalidation := .kNo })) ∧
      s = finishStart config dump.isSome s₂ := by
  simp only [startPeriodicUpdates, hrun, Bool.false_eq_true, if_false] at h
  obtain ⟨⟨s₂, report₂⟩, hfirst, h⟩ := Codec.bind_eq_ok.1 h
  cases Except.ok.inj h
  refine ⟨s₂, ?_, rfl⟩
  split_ifs at hfirst
  · obtain ⟨p, hp, hmap⟩ := Codec.map_eq_ok.1 hfirst
    cases hmap
    rw [runFirstUpdate_ok hp]
    exact .inr rfl
  · cases Except.ok.inj hfirst
    exact .inl ⟨rfl, rfl⟩

@[simp] theorem finishStart_lastUpdate (dumpLoaded : Bool) (s : UpdateState) :
    (finishStart config dumpLoaded s).lastUpdate = s.lastUpdate := by
  unfold finishStart
  split_ifs <;> rfl

@[simp] theorem finishStart_generatedFullUpdateJitter (dumpLoaded : Bool) (s : UpdateState) :
    (finishStart config dumpLoaded s).generatedFullUpdateJitter = s.generatedFullUpdateJitter := by
  unfold finishStart
  split_ifs <;> rfl

theorem finishStart_dumpFirstUpdateType (dumpLoaded : Bool) (s : UpdateState) :
    (finishStart config dumpLoaded s).dumpFirstUpdateType =
      if dumpLoaded ∧ config.firstUpdateType = .kIncrementalThenAsyncFull then some .kFull
      else s.dumpFirstUpdateType := by
  unfold finishStart
  split_ifs <;> rfl

/-- Until a success, the end of the start turns the loaded dump's type into the pending one. -/
theorem finishStart_dumpFirstUpdateType_of_loaded {s₂ : UpdateState}
    (h : s₂.dumpFirstUpdateType = dump.map fun _ => dumpUpdateType config.firstUpdateType) :
    (finishStart config dump.isSome s₂).dumpFirstUpdateType =
      dump.map fun _ => pendingDumpType config.firstUpdateType := by
  rw [finishStart_dumpFirstUpdateType, h]
  cases dump with
  | none => simp
  | some time =>
    by_cases hf : config.firstUpdateType = .kIncrementalThenAsyncFull
    · simp [hf, pendingDumpType]
    · simp [hf, dumpUpdateType_eq_pending hf]

/-- The end of the start establishes the invariant from what the first update left: the loaded
dump's type until a success, no dump type and an update after one. -/
theorem Invariant.of_finishStart {s₂ : UpdateState} {succeeded : Bool}
    (hpending : succeeded = false →
      s₂.dumpFirstUpdateType = dump.map fun _ => dumpUpdateType config.firstUpdateType)
    (hnever : succeeded = false → dump = none → s₂.lastUpdate = 0)
    (hupdated : succeeded = true → 0 < s₂.lastUpdate ∧ s₂.dumpFirstUpdateType = none)
    (hjitter : JitterInRange config s₂) :
    Invariant config dump (finishStart config dump.isSome s₂) succeeded := by
  have hjitter' : JitterInRange config (finishStart config dump.isSome s₂) := by
    intro g hg
    rw [finishStart_generatedFullUpdateJitter] at hg
    exact hjitter g hg
  cases succeeded with
  | false =>
    have hp := finishStart_dumpFirstUpdateType_of_loaded (hpending rfl)
    refine ⟨?_, fun _ => hp, fun _ hd => ?_, fun h => (by cases h), hjitter'⟩
    · rw [hp]
      cases dump <;> simp
    · rw [finishStart_lastUpdate]
      exact hnever rfl hd
  | true =>
    obtain ⟨hlast, hnone⟩ := hupdated rfl
    -- after a successful first update only `kIncrementalThenAsyncFull` leaves a dump type
    have hdump : (finishStart config dump.isSome s₂).dumpFirstUpdateType = none ∨
        (finishStart config dump.isSome s₂).dumpFirstUpdateType = some .kFull ∧
          config.firstUpdateType = .kIncrementalThenAsyncFull := by
      rw [finishStart_dumpFirstUpdateType, hnone]
      split_ifs with hf
      · exact .inr ⟨rfl, hf.2⟩
      · exact .inl rfl
    refine ⟨?_, fun h => (by cases h), fun h => (by cases h), fun _ => ⟨by simpa using hlast, ?_⟩,
      hjitter'⟩
    · rcases hdump with hd | ⟨hd, hf⟩
      · exact .inl hd
      · exact .inr (by simp [hd, hf, pendingDumpType])
    · rcases hdump with hd | ⟨hd, -⟩ <;> simp [hd]

/-- A start from a fresh state establishes the invariant. -/
theorem Invariant.start {periodicUpdateEnabled noFirstUpdate : Bool} {first : Attempt}
    {s₀ s : UpdateState} {report : Option Report} (h₀ : Fresh s₀)
    (h : startPeriodicUpdates config periodicUpdateEnabled noFirstUpdate dump first s₀ =
      .ok (s, report)) :
    Invariant config dump s (report.any (·.succeeded)) := by
  obtain ⟨s₂, hfirst, rfl⟩ := startPeriodicUpdates_cases h₀.notRunning h
  -- the state after loading the dump, as the first update finds it
  set s₁ : UpdateState :=
    { loadDump config dump { s₀ with isRunning := true } with firstUpdateInvalidation := .kNo }
  have hdump₁ : s₁.dumpFirstUpdateType =
      dump.map fun _ => dumpUpdateType config.firstUpdateType := by
    cases dump <;> simp [s₁, h₀.noDumpType]
  have hlast₁ : dump = none → s₁.lastUpdate = 0 := by
    rintro rfl
    simp [s₁, h₀.neverUpdated]
  have hjitter₁ : JitterInRange config s₁ := by
    intro g hg
    simp [s₁, h₀.noJitter] at hg
  rcases hfirst with ⟨rfl, rfl⟩ | hfirst
  · exact Invariant.of_finishStart (fun _ => hdump₁) (fun _ => hlast₁) (fun h => by cases h)
      hjitter₁
  · obtain ⟨rfl, rfl⟩ := Prod.mk.inj hfirst
    obtain ⟨j, hj, ⟨hs, hok, -⟩ | ⟨t, hs, hrep⟩⟩ := doPeriodicUpdate_cases first s₁
    · rw [Option.any_some, hok, hs]
      exact Invariant.of_finishStart (fun _ => hdump₁) (fun _ => hlast₁) (fun h => by cases h)
        (hjitter₁.failed hj)
    · rw [Option.any_some, hrep, hs]
      exact Invariant.of_finishStart (fun h => by cases h) (fun h => by cases h)
        (fun _ => ⟨by simpa using first.now_pos, by simp⟩) (hjitter₁.succeeded hj t)

/-- Every reachable state satisfies the invariant: by induction on the run. -/
theorem Reachable.invariant {s : UpdateState} {succeeded : Bool}
    (h : Reachable config dump s succeeded) : Invariant config dump s succeeded := by
  induction h with
  | start h => exact Invariant.start (fresh_requests _) h
  | event e _ ih => exact ih.step e

/-! ### The update type of every step -/

/-- `NextUpdateType` does not read whether the first update was attempted. -/
theorem nextUpdateType_fst_firstUpdateAttempted (b : Bool) (steadyNow : Int) (seed : Nat)
    (s : UpdateState) :
    (nextUpdateType config steadyNow seed { s with firstUpdateAttempted := b }).1 =
      (nextUpdateType config steadyNow seed s).1 := by
  obtain ⟨running, attempted, last, lastFull, jitter, counter, invalidation, dumpType, force⟩ := s
  have hgen : generateJitter config steadyNow seed
      ⟨running, b, last, lastFull, jitter, counter, invalidation, dumpType, force⟩ =
      generateJitter config steadyNow seed
        ⟨running, attempted, last, lastFull, jitter, counter, invalidation, dumpType, force⟩ := rfl
  cases dumpType with
  | some t => rfl
  | none =>
    simp only [nextUpdateType]
    split_ifs
    · rfl
    · rfl
    · split
      · rfl
      · rfl
      · simp only [hgen]
        split <;> (try split_ifs) <;> rfl

/-- A step that made an update ran `DoUpdate` with the type `NextUpdateType` picked. -/
theorem doPeriodicUpdate_of_updateType {a : Attempt} {s : UpdateState} {t : UpdateType}
    (ht : (doPeriodicUpdate config a s).2.updateType = some t) :
    doPeriodicUpdate config a s =
      doUpdate config
        (nextUpdateType config a.steadyNow a.seed { s with firstUpdateAttempted := true }).1 a
        (nextUpdateType config a.steadyNow a.seed { s with firstUpdateAttempted := true }).2 := by
  simp only [doPeriodicUpdate] at ht ⊢
  -- the skipped step reports no update, which `split_ifs` finds against `ht`
  split_ifs at ht ⊢
  rfl

theorem doPeriodicUpdate_updateType_eq {a : Attempt} {s : UpdateState} {t : UpdateType}
    (ht : (doPeriodicUpdate config a s).2.updateType = some t) :
    t = (nextUpdateType config a.steadyNow a.seed s).1 := by
  rcases doPeriodicUpdate_updateType a s with h | h <;> rw [h] at ht
  · cases ht
  · rw [← nextUpdateType_fst_firstUpdateAttempted true]
    exact (Option.some.inj ht).symm

/-- The update of the start is full, or the type the loaded dump asks for. -/
theorem startPeriodicUpdates_updateType {periodicUpdateEnabled noFirstUpdate : Bool}
    {first : Attempt} {requests : List UpdateType} {s : UpdateState} {r : Report}
    (h : startPeriodicUpdates config periodicUpdateEnabled noFirstUpdate dump first
      (requests.foldl (fun s t => (invalidateAsync config t s).1) .initial) = .ok (s, some r))
    {t : UpdateType} (ht : r.updateType = some t) :
    t = (dump.map fun _ => dumpUpdateType config.firstUpdateType).getD .kFull := by
  have h₀ : Fresh (requests.foldl (fun s t => (invalidateAsync config t s).1) .initial) :=
    fresh_requests requests
  obtain ⟨s₂, hfirst, -⟩ := startPeriodicUpdates_cases h₀.notRunning h
  rcases hfirst with ⟨hr, -⟩ | hfirst
  · cases hr
  obtain ⟨-, hr⟩ := Prod.mk.inj hfirst
  cases Option.some.inj hr
  rw [doPeriodicUpdate_updateType_eq ht]
  cases dump with
  | none => exact nextUpdateType_of_lastUpdate (by simp [h₀.noDumpType]) (by simp [h₀.neverUpdated]) _ _
  | some time => exact nextUpdateType_of_dumpType (by simp) _ _

/-- Before the first successful update every update is full, or the type the loaded dump leaves
pending. -/
theorem nextUpdateType_before_success {s : UpdateState} (h : Reachable config dump s false)
    (a : Attempt) {t : UpdateType} (ht : (doPeriodicUpdate config a s).2.updateType = some t) :
    t = (dump.map fun _ => pendingDumpType config.firstUpdateType).getD .kFull := by
  have inv := h.invariant
  rw [doPeriodicUpdate_updateType_eq ht]
  cases dump with
  | none => exact nextUpdateType_of_lastUpdate (inv.pending rfl) (inv.neverUpdated rfl rfl) _ _
  | some time => exact nextUpdateType_of_dumpType (inv.pending rfl) _ _

/-- A cache that can only make full updates makes only full updates. -/
theorem nextUpdateType_onlyFull_reachable (hallowed : config.allowedUpdateTypes = .kOnlyFull)
    (hfirst : config.firstUpdateType = .kFull) {s : UpdateState} {succeeded : Bool}
    (h : Reachable config dump s succeeded) (a : Attempt) {t : UpdateType}
    (ht : (doPeriodicUpdate config a s).2.updateType = some t) : t = .kFull := by
  rw [doPeriodicUpdate_updateType_eq ht]
  refine nextUpdateType_of_onlyFull hallowed ?_ _ _
  rcases h.invariant.dumpType with hd | hd <;> simp [hd, hfirst, pendingDumpType]

/-- The dump type a forced full update waits for: only an incremental one, pending from a dump
with `kIncremental` until the first success, is not full. -/
theorem Invariant.dumpFirstUpdateType_getD {s : UpdateState} {succeeded : Bool}
    (h : Invariant config dump s succeeded) :
    s.dumpFirstUpdateType.getD .kFull =
      if succeeded = false ∧ dump.isSome ∧ config.firstUpdateType = .kIncremental then
        .kIncremental
      else .kFull := by
  cases succeeded with
  | false =>
    rw [h.pending rfl]
    cases dump with
    | none => simp
    | some time => by_cases hf : config.firstUpdateType = .kIncremental <;> simp [hf, pendingDumpType]
  | true =>
    obtain ⟨-, hne⟩ := h.updated rfl
    rcases h.dumpType with hd | hd
    · simp [hd]
    · rw [hd] at hne ⊢
      by_cases hf : config.firstUpdateType = .kIncremental <;> simp_all [pendingDumpType]

/-- After `InvalidateAsync(kFull)`, or any request under `kOnlyFull`, a full update is forced,
and the next update is full unless an incremental dump type is still pending. -/
theorem nextUpdateType_after_invalidate {s : UpdateState} {succeeded : Bool}
    (h : Reachable config dump s succeeded) {request : UpdateType}
    (hrequest : request = .kFull ∨ config.allowedUpdateTypes = .kOnlyFull) (a : Attempt)
    {t : UpdateType}
    (ht : (doPeriodicUpdate config a (invalidateAsync config request s).1).2.updateType = some t) :
    (invalidateAsync config request s).1.forceFullUpdate = true ∧
      t = if succeeded = false ∧ dump.isSome ∧ config.firstUpdateType = .kIncremental then
        .kIncremental
      else .kFull := by
  have hforce : (invalidateAsync config request s).1.forceFullUpdate = true := by
    rw [invalidateAsync_fst]
    rcases hrequest with rfl | hk <;> simp [*]
  refine ⟨hforce, ?_⟩
  rw [doPeriodicUpdate_updateType_eq ht, nextUpdateType_of_force hforce]
  rw [← h.invariant.dumpFirstUpdateType_getD, invalidateAsync_fst]

/-! ### The full updates of a cache with full and incremental updates -/

/-- Under full and incremental updates, with no dump type pending and no forced full update,
`NextUpdateType` stores the jitter it draws. -/
theorem nextUpdateType_snd_fullAndIncremental {s : UpdateState}
    (hallowed : config.allowedUpdateTypes = .kFullAndIncremental)
    (hdump : s.dumpFirstUpdateType = none) (hlast : s.lastUpdate ≠ 0)
    (hforce : s.forceFullUpdate = false) (steadyNow : Int) (seed : Nat) :
    (nextUpdateType config steadyNow seed s).2 =
      { s with generatedFullUpdateJitter := generateJitter config steadyNow seed s } := by
  simp only [nextUpdateType, hdump, hlast, hforce, hallowed, if_false, Bool.false_eq_true]
  split <;> (try split_ifs) <;> rfl

/-- Once an update has succeeded, with no dump type pending and no forced full update, a full
update is due exactly past the last full update, the interval and the drawn jitter; the jitter
lies within the config's; and unless the update is a successful full one, the state keeps the
jitter. -/
theorem nextUpdateType_fullAndIncremental_reachable
    (hallowed : config.allowedUpdateTypes = .kFullAndIncremental) {s : UpdateState}
    (h : Reachable config dump s true) (hdump : s.dumpFirstUpdateType = none)
    (hforce : s.forceFullUpdate = false) (a : Attempt) {t : UpdateType}
    (ht : (doPeriodicUpdate config a s).2.updateType = some t) :
    (t = .kFull ↔ ∃ g, generateJitter config a.steadyNow a.seed s = some g ∧
        s.lastFullUpdate + config.fullUpdateInterval + g ≤ a.steadyNow) ∧
      (∀ g, generateJitter config a.steadyNow a.seed s = some g →
        -(config.fullUpdateJitter : Int) ≤ g ∧ g ≤ config.fullUpdateJitter) ∧
      ((doPeriodicUpdate config a s).2.fullSuccess = false →
        (doPeriodicUpdate config a s).1.generatedFullUpdateJitter =
          generateJitter config a.steadyNow a.seed s) := by
  have inv := h.invariant
  have hlast : s.lastUpdate ≠ 0 := Nat.pos_iff_ne_zero.1 (inv.updated rfl).1
  refine ⟨?_, generateJitter_mem inv.jitter a.steadyNow a.seed, fun hfull => ?_⟩
  · rw [doPeriodicUpdate_updateType_eq ht]
    exact nextUpdateType_fullAndIncremental hallowed hdump hlast hforce _ _
  · -- the step made an update, from the state with the drawn jitter
    have hsnd := nextUpdateType_snd_fullAndIncremental (s := { s with firstUpdateAttempted := true })
      hallowed hdump hlast hforce a.steadyNow a.seed
    rw [doPeriodicUpdate_of_updateType ht, hsnd] at hfull ⊢
    by_cases hout : a.outcome = .failure
    · rw [doUpdate_failure _ hout]
      rfl
    · rw [doUpdate_success _ hout] at hfull ⊢
      split_ifs with htype
      · simp [Report.fullSuccess, htype] at hfull
      · rfl

/-- A step that is not a successful full update keeps the time of the last full update, the
drawn jitter and a forced full update. -/
theorem step_of_not_fullSuccess {s : UpdateState} {e : Event}
    (h : (step config s e).2.any Report.fullSuccess = false) :
    (s.forceFullUpdate = true → (step config s e).1.forceFullUpdate = true) ∧
      (step config s e).1.lastFullUpdate = s.lastFullUpdate ∧
      ∀ g, s.generatedFullUpdateJitter = some g →
        (step config s e).1.generatedFullUpdateJitter = some g := by
  cases e with
  | invalidateAsync request =>
    rw [step_invalidateAsync, invalidateAsync_fst]
    exact ⟨fun hf => by simp [hf], rfl, fun _ hg => hg⟩
  | periodicUpdate a =>
    simp only [step_periodicUpdate, Option.any_some] at h ⊢
    -- a drawn jitter is what `generateJitter` gives again
    have hkeep : ∀ {j : Option Int}, (j = s.generatedFullUpdateJitter ∨
        j = generateJitter config a.steadyNow a.seed s) →
        ∀ g, s.generatedFullUpdateJitter = some g → j = some g := by
      rintro j (rfl | rfl) g hg
      · exact hg
      · exact generateJitter_of_some hg _ _
    obtain ⟨j, hj, ⟨hs, -, -⟩ | ⟨t, hs, hr⟩⟩ := doPeriodicUpdate_cases a s
    · rw [hs]
      exact ⟨id, rfl, hkeep hj⟩
    · rw [hr] at h
      have htype : t ≠ .kFull := by
        rintro rfl
        simp [Report.fullSuccess] at h
      rw [hs, succeededState, if_neg htype]
      exact ⟨id, rfl, hkeep hj⟩

/-- A successful full update clears a forced full update and the jitter, and records its start on
the steady clock as the time of the last full update. -/
theorem doPeriodicUpdate_of_fullSuccess {s : UpdateState} {a : Attempt}
    (h : (doPeriodicUpdate config a s).2.fullSuccess = true) :
    (doPeriodicUpdate config a s).1.forceFullUpdate = false ∧
      (doPeriodicUpdate config a s).1.lastFullUpdate = a.steadyNow ∧
      (doPeriodicUpdate config a s).1.generatedFullUpdateJitter = none := by
  obtain ⟨j, -, ⟨-, hok, -⟩ | ⟨t, hs, hr⟩⟩ := doPeriodicUpdate_cases a s
  · rw [Report.fullSuccess, hok] at h
    cases h
  · rw [hr] at h
    have htype : t = .kFull := by simpa [Report.fullSuccess] using h
    rw [hs, succeededState, if_pos htype]
    exact ⟨rfl, rfl, rfl⟩

/-! ### Expiry -/

/-- The count of failed updates: reset by a success, one more otherwise. -/
theorem doPeriodicUpdate_failedUpdatesCounter (a : Attempt) (s : UpdateState) :
    (doPeriodicUpdate config a s).1.failedUpdatesCounter =
      if (doPeriodicUpdate config a s).2.succeeded then 0 else s.failedUpdatesCounter + 1 := by
  obtain ⟨j, -, ⟨hs, hok, -⟩ | ⟨t, hs, hr⟩⟩ := doPeriodicUpdate_cases a s
  · rw [hok, hs]
    rfl
  · rw [hr, hs, succeededState]
    split_ifs <;> simp_all

/-- `MarkAsExpired` is called by the skipped or failed update whose count reaches
`failed_updates_before_expiration`. -/
theorem doPeriodicUpdate_markedAsExpired (a : Attempt) (s : UpdateState) :
    (doPeriodicUpdate config a s).2.markedAsExpired = true ↔
      (doPeriodicUpdate config a s).2.succeeded = false ∧
        config.failedUpdatesBeforeExpiration = some (s.failedUpdatesCounter + 1) := by
  obtain ⟨j, -, ⟨-, hok, hexp⟩ | ⟨t, -, hr⟩⟩ := doPeriodicUpdate_cases a s
  · rw [hexp, hok]
    simp
  · rw [hr]
    simp

/-! ### The update types of every run -/

/-- Which update a started cache makes, for a config the constructor accepts: the first update of
the start is full or the loaded dump's type, and later ones are full or the pending dump type
until the first success; under `kOnlyFull` all are full; after a request for a full update the
next one is full unless an incremental dump type is pending, and the request stays until a full
update succeeds; under full and incremental updates a full update is due past the last full
update, the interval and one jitter drawn within range and kept until the next full update; and
the cache is marked as expired by the failure that brings the count of failures since the last
success to `failed_updates_before_expiration`. -/
theorem update_type_schedule {raw : StaticConfig} {config : Config}
    (hconfig : Config.make raw = .ok config) :
    (∀ {dump : Option Nat} {periodicUpdateEnabled noFirstUpdate : Bool} {first : Attempt}
        {requests : List UpdateType} {s : UpdateState} {r : Report} {t : UpdateType},
      startPeriodicUpdates config periodicUpdateEnabled noFirstUpdate dump first
          (requests.foldl (fun s t => (invalidateAsync config t s).1) .initial) =
        .ok (s, some r) →
      r.updateType = some t →
      t = (dump.map fun _ => dumpUpdateType config.firstUpdateType).getD .kFull ∧
        (config.allowedUpdateTypes = .kOnlyFull → t = .kFull)) ∧
    (∀ {dump : Option Nat} {s : UpdateState} {t : UpdateType} (a : Attempt),
      Reachable config dump s false → (doPeriodicUpdate config a s).2.updateType = some t →
      t = (dump.map fun _ => pendingDumpType config.firstUpdateType).getD .kFull) ∧
    (∀ {dump : Option Nat} {s : UpdateState} {succeeded : Bool} {t : UpdateType} (a : Attempt),
      config.allowedUpdateTypes = .kOnlyFull → Reachable config dump s succeeded →
      (doPeriodicUpdate config a s).2.updateType = some t → t = .kFull) ∧
    (∀ {dump : Option Nat} {s : UpdateState} {succeeded : Bool} {request t : UpdateType}
        (a : Attempt),
      Reachable config dump s succeeded →
      (request = .kFull ∨ config.allowedUpdateTypes = .kOnlyFull) →
      (doPeriodicUpdate config a (invalidateAsync config request s).1).2.updateType = some t →
      (invalidateAsync config request s).1.forceFullUpdate = true ∧
        t = if succeeded = false ∧ dump.isSome ∧ config.firstUpdateType = .kIncremental then
          .kIncremental
        else .kFull) ∧
    (∀ {s : UpdateState} {e : Event}, (step config s e).2.any Report.fullSuccess = false →
      (s.forceFullUpdate = true → (step config s e).1.forceFullUpdate = true) ∧
        (step config s e).1.lastFullUpdate = s.lastFullUpdate ∧
        ∀ g, s.generatedFullUpdateJitter = some g →
          (step config s e).1.generatedFullUpdateJitter = some g) ∧
    (∀ {s : UpdateState} {a : Attempt}, (doPeriodicUpdate config a s).2.fullSuccess = true →
      (doPeriodicUpdate config a s).1.forceFullUpdate = false ∧
        (doPeriodicUpdate config a s).1.lastFullUpdate = a.steadyNow ∧
        (doPeriodicUpdate config a s).1.generatedFullUpdateJitter = none) ∧
    (∀ {dump : Option Nat} {s : UpdateState} {t : UpdateType} (a : Attempt),
      config.allowedUpdateTypes = .kFullAndIncremental → Reachable config dump s true →
      s.dumpFirstUpdateType = none → s.forceFullUpdate = false →
      (doPeriodicUpdate config a s).2.updateType = some t →
      (t = .kFull ↔ ∃ g, generateJitter config a.steadyNow a.seed s = some g ∧
          s.lastFullUpdate + config.fullUpdateInterval + g ≤ a.steadyNow) ∧
        (∀ g, generateJitter config a.steadyNow a.seed s = some g →
          -(config.fullUpdateJitter : Int) ≤ g ∧ g ≤ config.fullUpdateJitter) ∧
        ((doPeriodicUpdate config a s).2.fullSuccess = false →
          (doPeriodicUpdate config a s).1.generatedFullUpdateJitter =
            generateJitter config a.steadyNow a.seed s)) ∧
    (∀ (a : Attempt) (s : UpdateState),
      (doPeriodicUpdate config a s).1.failedUpdatesCounter =
          (if (doPeriodicUpdate config a s).2.succeeded then 0 else s.failedUpdatesCounter + 1) ∧
        ((doPeriodicUpdate config a s).2.markedAsExpired = true ↔
          (doPeriodicUpdate config a s).2.succeeded = false ∧
            config.failedUpdatesBeforeExpiration = some (s.failedUpdatesCounter + 1))) := by
  -- the constructor refuses a dump asking for an incremental update under `kOnlyFull`
  have hfirst := fun hk => firstUpdateType_of_onlyFull hconfig hk
  refine ⟨fun {dump} _ _ _ _ _ _ _ h ht => ⟨startPeriodicUpdates_updateType h ht, fun hk => ?_⟩,
    fun a h ht => nextUpdateType_before_success h a ht,
    fun a hk h ht => nextUpdateType_onlyFull_reachable hk (hfirst hk) h a ht,
    fun a h hrequest ht => nextUpdateType_after_invalidate h hrequest a ht,
    fun h => step_of_not_fullSuccess h, fun h => doPeriodicUpdate_of_fullSuccess h,
    fun a hk h hdump hforce ht => nextUpdateType_fullAndIncremental_reachable hk h hdump hforce a ht,
    fun a s => ⟨doPeriodicUpdate_failedUpdatesCounter a s, doPeriodicUpdate_markedAsExpired a s⟩⟩
  rw [startPeriodicUpdates_updateType h ht, hfirst hk]
  cases dump <;> rfl

/-- A cache with only full updates whose first update failed: one failure is counted, and a
config without `failed-updates-before-expiration` does not mark it as expired. -/
theorem update_type_schedule_failed_first_update :
    let raw : StaticConfig :=
      ⟨"components.example-cache", none, none, none, some 60000, none, none, none, none⟩
    let config : Config := ⟨.kOnlyFull, false, none, .kSkip, .kFull, 60000, 60000, 0, true⟩
    let a : Attempt := ⟨0, 1, by decide, 0, .failure⟩
    Config.make raw = .ok config ∧
      ((doPeriodicUpdate config a .initial).1.failedUpdatesCounter =
          (if (doPeriodicUpdate config a .initial).2.succeeded then 0 else 0 + 1) ∧
        ((doPeriodicUpdate config a .initial).2.markedAsExpired = true ↔
          (doPeriodicUpdate config a .initial).2.succeeded = false ∧
            config.failedUpdatesBeforeExpiration = some (0 + 1))) := by
  intro raw config a
  exact ⟨by decide, (@update_type_schedule raw config (by decide)).2.2.2.2.2.2.2 a .initial⟩

/-- A dump with `first-update-type: incremental` whose first update failed: after
`InvalidateAsync(kFull)` the next update is incremental, and the full update stays forced. -/
theorem invalidate_full_waits_for_incremental_dump :
    let raw : StaticConfig := ⟨"components.example-cache", some .kFullAndIncremental, none, none,
      some 1000, some 60000, none, none, some ⟨some .kBestEffort, some .kIncremental, true⟩⟩
    let config : Config :=
      ⟨.kFullAndIncremental, false, none, .kBestEffort, .kIncremental, 1000, 60000, 6000, true⟩
    let first : Attempt := ⟨0, 200, by decide, 0, .failure⟩
    let next : Attempt := ⟨10, 300, by decide, 0, .success⟩
    Config.make raw = .ok config ∧
      ∃ s, startPeriodicUpdates config true false (some 100) first .initial =
          .ok (s, some ⟨some .kIncremental, false, false⟩) ∧
        (step config s (.invalidateAsync .kFull)).1.forceFullUpdate = true ∧
        step config (step config s (.invalidateAsync .kFull)).1 (.periodicUpdate next) =
          (⟨true, true, 300, 0, none, 0, .kFinished, none, true⟩,
            some ⟨some .kIncremental, true, false⟩) :=
  ⟨by decide, _, rfl, rfl, rfl⟩

end Cache

end Userver
