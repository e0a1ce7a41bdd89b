import Userver.Lib.Codec

/-!
# The static config of a cache

`cache::Config` (`cache_config.cpp`) is built from the cache's section of the static config and,
when dumps are on, from its `dump` section.  The constructor reads each member with a default,
derives the allowed update types (`ParseUpdateMode`), and throws `ConfigError` for the
combinations it refuses: both intervals are needed for full and incremental updates, only
`update-interval` for the other two kinds, `first-update-mode` whenever dumps are on, and under
`kOnlyFull` a dump may only ask for a full first update.

A config the constructor accepts under `kOnlyFull` has the first update type `kFull`
(`firstUpdateType_of_onlyFull`): the update trait relies on it for a cache that can only make
full updates.
-/

namespace Userver

namespace Cache

/-- `cache::AllowedUpdateTypes`. -/
inductive AllowedUpdateTypes where
  | kFullAndIncremental
  | kOnlyFull
  | kOnlyIncremental
  deriving DecidableEq, Repr

/-- `cache::UpdateType`. -/
inductive UpdateType where
  | kFull
  | kIncremental
  deriving DecidableEq, Repr

/-- `cache::FirstUpdateMode`. -/
inductive FirstUpdateMode where
  | kRequired
  | kBestEffort
  | kSkip
  deriving DecidableEq, Repr

/-- `cache::FirstUpdateType`. -/
inductive FirstUpdateType where
  | kFull
  | kIncremental
  | kIncrementalThenAsyncFull
  deriving DecidableEq, Repr

/-- The members of the `dump` section the constructor reads, each `none` when absent, and whether
the `dump::Config` built from the same section has its `max-age` set. -/
structure DumpSection where
  firstUpdateMode : Option FirstUpdateMode
  firstUpdateType : Option FirstUpdateType
  maxDumpAgeSet : Bool
  deriving DecidableEq, Repr

/-- The members of a cache's static config that the constructor reads, each `none` when absent;
durations are in milliseconds. -/
structure StaticConfig where
  path : String
  updateTypes : Option AllowedUpdateTypes
  firstUpdateFailOk : Option Bool
  failedUpdatesBeforeExpiration : Option Nat
  updateInterval : Option Nat
  fullUpdateInterval : Option Nat
  fullUpdateJitter : Option Nat
  updatesEnabled : Option Bool
  dump : Option DumpSection
  deriving DecidableEq, Repr

/-- The fields of `cache::Config` that the update trait reads. -/
structure Config where
  allowedUpdateTypes : AllowedUpdateTypes
  allowFirstUpdateFailure : Bool
  failedUpdatesBeforeExpiration : Option Nat
  firstUpdateMode : FirstUpdateMode
  firstUpdateType : FirstUpdateType
  updateInterval : Nat
  fullUpdateInterval : Nat
  fullUpdateJitter : Nat
  updatesEnabled : Bool
  deriving DecidableEq, Repr

/-- `cache::ConfigError`. -/
structure ConfigError where
  what : String
  deriving DecidableEq, Repr

/-- `GetDefaultJitter`. -/
def getDefaultJitter (interval : Nat) : Nat := interval / 10

/-- `ParseUpdateMode`: the `update-types` member, or full and incremental updates when both
intervals are given. -/
def parseUpdateMode (config : StaticConfig) : AllowedUpdateTypes :=
  match config.updateTypes with
  | some updateTypes => updateTypes
  | none =>
    if config.fullUpdateInterval.isSome && config.updateInterval.isSome then .kFullAndIncremental
    else .kOnlyFull

/-- The `switch` of the constructor: the full update interval after the checks of the allowed
update types. -/
def checkIntervals (path : String) (allowedUpdateTypes : AllowedUpdateTypes)
    (updateInterval fullUpdateInterval : Nat) : Except ConfigError Nat :=
  match allowedUpdateTypes with
  | .kFullAndIncremental =>
    if updateInterval = 0 ∨ fullUpdateInterval = 0 then
      throw ⟨"Both update-interval and full-update-interval must be set at '" ++ path ++ "'"⟩
    else pure fullUpdateInterval
  | .kOnlyFull | .kOnlyIncremental =>
    if fullUpdateInterval ≠ 0 then
      throw ⟨"full-update-interval config field must only be used with full-and-incremental " ++
        "updated cache at '" ++ path ++ "'. Please rename it to update-interval."⟩
    else if updateInterval = 0 then
      throw ⟨"update-interval is not set for cache at '" ++ path ++ "'"⟩
    else pure updateInterval

/-- The checks of the `dump` section. -/
def checkDump (path : String) (allowedUpdateTypes : AllowedUpdateTypes)
    (firstUpdateMode : FirstUpdateMode) (firstUpdateType : FirstUpdateType) (dump : DumpSection) :
    Except ConfigError Unit := do
  if dump.firstUpdateMode.isNone then
    throw ⟨"If dumps are enabled, then 'first-update-mode' must be set for cache at '" ++ path ++
      "'"⟩
  if firstUpdateMode ≠ .kRequired ∧ !dump.maxDumpAgeSet then
    throw ⟨"If 'first-update-mode' is not 'required', then 'max-age' must be set for cache at '" ++
      path ++ "'. If using severely outdated data is not harmful for this cache, please add " ++
      "to config.yaml: 'max-age:  # outdated data is not harmful'"⟩
  if allowedUpdateTypes = .kOnlyFull then
    if firstUpdateType ≠ .kFull then
      throw ⟨"Cache at '" ++ path ++ "' can't perform the update specified in " ++
        "'first-update-type'"⟩
  else if firstUpdateMode ≠ .kSkip then
    if dump.firstUpdateType.isNone then
      throw ⟨"'first-update-type' must be set for cache at '" ++ path ++ "'"⟩

/-- `Config::Config`. -/
def Config.make (config : StaticConfig) : Except ConfigError Config := do
  let allowedUpdateTypes := parseUpdateMode config
  let updateInterval := config.updateInterval.getD 0
  let fullUpdateInterval := config.fullUpdateInterval.getD 0
  -- the default jitter is computed from the interval as read, before the checks change it
  let fullUpdateJitter := config.fullUpdateJitter.getD (getDefaultJitter fullUpdateInterval)
  let firstUpdateMode := (config.dump.bind (·.firstUpdateMode)).getD .kSkip
  let firstUpdateType := (config.dump.bind (·.firstUpdateType)).getD .kFull
  let fullUpdateInterval ←
    checkIntervals config.path allowedUpdateTypes updateInterval fullUpdateInterval
  if let some dump := config.dump then
    checkDump config.path allowedUpdateTypes firstUpdateMode firstUpdateType dump
  pure {
    allowedUpdateTypes
    allowFirstUpdateFailure := config.firstUpdateFailOk.getD false
    failedUpdatesBeforeExpiration := config.failedUpdatesBeforeExpiration
    firstUpdateMode
    firstUpdateType
    updateInterval
    fullUpdateInterval
    fullUpdateJitter
    updatesEnabled := config.updatesEnabled.getD true }

theorem checkDump_onlyFull {path : String} {mode : FirstUpdateMode} {type : FirstUpdateType}
    {dump : DumpSection} (h : checkDump path .kOnlyFull mode type dump = .ok ()) :
    type = .kFull := by
  by_contra hne
  simp [checkDump, hne] at h
  split_ifs at h <;> cases h

/-- Under `kOnlyFull` an accepted config asks for a full first update: the default, or what the
check of the `dump` section lets through. -/
theorem firstUpdateType_of_onlyFull {raw : StaticConfig} {config : Config}
    (h : Config.make raw = .ok config) (hfull : config.allowedUpdateTypes = .kOnlyFull) :
    config.firstUpdateType = .kFull := by
  unfold Config.make at h
  obtain ⟨_, -, h⟩ := Codec.bind_eq_ok.1 h
  cases hd : raw.dump with
  | none =>
    rw [hd] at h
    cases h
    simp
  | some dump =>
    rw [hd] at h
    obtain ⟨_, hdump, h⟩ := Codec.bind_eq_ok.1 h
    cases h
    have hmode : parseUpdateMode raw = .kOnlyFull := hfull
    rw [hmode] at hdump
    simpa using checkDump_onlyFull hdump

end Cache

end Userver
