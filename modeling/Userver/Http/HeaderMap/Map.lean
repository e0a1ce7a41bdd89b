import Userver.Http.HeaderMap.Hash
import Userver.Lib.Probe

/-!
# `header_map::Map`: the Robin Hood table under `HeaderMap`

`header_map::Map` (`map.cpp`) keeps the entries of a `HeaderMap` in insertion order in
`entries_`, a vector of name-value pairs, and finds them through `positions_`, an open-addressing
table of `Pos` slots whose size is a power of two (`mask_` is the size minus one).  A slot holds
the index of an entry, the entry's hash (`MaskHash` of the `Danger`'s hash, 15 bits) and its
header index.  Lookups probe clockwise from `DesiredPos(hash)` and stop at an empty slot or at a
slot whose own probe distance is shorter than the distance walked (Robin Hood order).  Insertion
takes the first slot that is empty or whose occupant is closer to home, and in the second case
shifts the rest of the cluster on (`DoRobinhoodAtPosition`).  Erasure moves the last entry into
the freed entry index, fixes the slot that pointed to it, and shifts the following cluster back.
A probe of 128 slots or more turns the danger state yellow; the next insertion then doubles the
table, or, when the table is less than a fifth full, turns red and `Rebuild`s it under a seeded
SipHash.

Every function keeps the name and the order of operations of the source.  A `ProbeLoop` is a
`Probe.loop` of one round of the table.  The calls that can throw `TooManyHeadersException`
return the state they leave with the outcome (`Throwing`).  `Rebuild` calls `InsertOrModify`,
which calls `ReserveOne`, which calls `Rebuild` again: the knot is tied by depth
(`reserveOneAt`), since a `Rebuild` runs on a red map, whose `ReserveOne` never rebuilds
(`reserveOneWith_of_not_isYellow`).
-/

namespace Userver

namespace Http

namespace Headers

/-- `Traits::kMaxSize`. -/
def kMaxSize : Nat := 2 ^ 15

/-- `kDisplacementThreshold`. -/
def kDisplacementThreshold : Nat := 128

/-- `kForwardShiftThreshold`. -/
def kForwardShiftThreshold : Nat := 128

/-- `Map::kOnStackPositionsCount`. -/
def kOnStackPositionsCount : Nat := 32

/-- `DesiredPos`. -/
def desiredPos (mask hash : Nat) : Nat := hash &&& mask

/-- `ProbeDistance`: how far clockwise `current` is from the desired slot, the `size_t`
subtraction wrapping. -/
def probeDistance (mask hash current : Nat) : Nat :=
  ((current + 2 ^ 64 - desiredPos mask hash) % 2 ^ 64) &&& mask

/-- `UsableCapacity`: the load factor is at most `0.75`. -/
def usableCapacity (capacity : Nat) : Nat := capacity - capacity / 4

/-- `MaskHash`. -/
def maskHash (hash : UInt64) : Nat := hash.toNat &&& (kMaxSize - 1)

/-- `load_factor >= kLoadFactorThreshold`, computed in `float`: the table size is a power of two
below `2^24`, so `entries / size` is exact, and `0.2f` is `13421773 / 2^26`. -/
def loadFactorAtLeastThreshold (len size : Nat) : Bool := 13421773 * size ≤ len * 67108864

/-- `Pos`: the entry index, the hash and the header index of an occupied slot; an empty slot
(`Pos::None()`) is `none`. -/
structure Pos where
  entriesIndex : Nat
  hash : Nat
  headerIndex : Int
  deriving DecidableEq, Repr

/-- `Map::InsertOrModifyOccupiedAction`. -/
inductive InsertOrModifyOccupiedAction where
  | kAppend
  | kReplace
  | kNoop
  | kAssert
  deriving DecidableEq, Repr

/-- `HeaderMap::TooManyHeadersException`. -/
structure TooManyHeadersException where
  what : String
  deriving DecidableEq, Repr

/-- `header_map::Map`: `mask_`, `positions_`, `entries_` and `danger_`. -/
structure Map where
  mask : Nat
  positions : List (Option Pos)
  entries : List (Bytes × Bytes)
  danger : Danger
  deriving DecidableEq, Repr

/-- The state a call that can throw leaves, with its result or the exception it threw. -/
abbrev Throwing (α : Type) := Map × Except TooManyHeadersException α

namespace Map

/-- A default-constructed `Map`. -/
def empty : Map := ⟨0, [], [], Danger.default⟩

/-- `Size`. -/
def size (m : Map) : Nat := m.entries.length

/-- `Capacity`. -/
def capacity (m : Map) : Nat := usableCapacity m.positions.length

/-- The entry at an index, as `entries_[i]` reads it. -/
def entryAt (m : Map) (i : Nat) : Bytes × Bytes := m.entries.getD i ([], [])

/-- `ProbeLoop`: clockwise from `start`, at most one round of the table. -/
def probeLoop {σ : Type} (m : Map) (start : Nat) (body : Nat → σ → Probe.Action × σ) (s : σ) :
    Option Nat × σ :=
  Probe.loop m.positions.length body m.positions.length start s

section Hashing

variable (sipHash : UInt64 → UInt64 → Bytes → UInt64)

/-- `HashKey(std::string_view)`. -/
def hashKey (m : Map) (key : Bytes) : Nat := maskHash (m.danger.hashKey sipHash key)

/-- `HashKey(const PredefinedHeader&)`. -/
def hashKeyHeader (m : Map) (header : PredefinedHeader) : Nat :=
  maskHash (m.danger.hashKeyHeader sipHash header)

/-! ## Lookup -/

/-- The body of `DoFind`'s probe; its state is the distance walked and the result so far. -/
def findStep (m : Map) (key : Bytes) (hash : Nat) (headerIndex : Int) (idx : Nat) :
    Nat × Option (Nat × Nat) → Probe.Action × (Nat × Option (Nat × Nat))
  | (dist, res) =>
    match m.positions.getD idx none with
    -- the cluster ended, no luck
    | none => (.kStop, (dist, res))
    | some pos =>
      -- we've checked for more values than this pos displacement, our hash is not present
      if dist > probeDistance m.mask pos.hash idx then (.kStop, (dist, res))
      else if pos.hash = hash ∧
          (headerIndex = pos.headerIndex ∨ strIcaseEqual (m.entryAt pos.entriesIndex).1 key) then
        (.kStop, (dist, some (idx, pos.entriesIndex)))
      else (.kContinue, (dist + 1, res))

/-- `DoFind`: the slot and the entry index of the key, if found. -/
def doFind (m : Map) (key : Bytes) (hash : Nat) (headerIndex : Int) : Option (Nat × Nat) :=
  if m.positions.isEmpty then none
  else (m.probeLoop (desiredPos m.mask hash) (m.findStep key hash headerIndex) (0, none)).2.2

/-- `Find(std::string_view)`: the entry index, or `none` for `End()`. -/
def find (m : Map) (key : Bytes) : Option Nat :=
  (m.doFind key (m.hashKey sipHash key) 0).map (·.2)

/-- `Find(const PredefinedHeader&)`. -/
def findHeader (m : Map) (header : PredefinedHeader) : Option Nat :=
  (m.doFind header.name (m.hashKeyHeader sipHash header) header.headerIndex).map (·.2)

end Hashing

/-! ## Slots -/

/-- `InsertEntry`: append the entry, and return its header index. -/
def insertEntry (m : Map) (key value : Bytes) : Map × Int :=
  ({ m with entries := m.entries ++ [(key, value)] }, getHeaderIndexForInsertion key)

/-- The body of `DoRobinhoodAtPosition`'s probe: the slots, the `Pos` carried and the number of
occupants displaced. -/
def robinhoodStep (idx : Nat) :
    List (Option Pos) × Pos × Nat → Probe.Action × (List (Option Pos) × Pos × Nat)
  | (positions, oldPos, numDisplaced) =>
    match positions.getD idx none with
    | none => (.kStop, (positions.set idx (some oldPos), oldPos, numDisplaced))
    | some pos => (.kContinue, (positions.set idx (some oldPos), pos, numDisplaced + 1))

/-- `DoRobinhoodAtPosition`: put `oldPos` at `idx` and shift the occupants on to the next empty
slot; the number of occupants displaced. -/
def doRobinhoodAtPosition (m : Map) (idx : Nat) (oldPos : Pos) : Map × Nat :=
  let r := m.probeLoop idx robinhoodStep (m.positions, oldPos, 0)
  ({ m with positions := r.2.1 }, r.2.2.2)

/-- The body of `ReinsertPositionInOrder`'s probe: the first empty slot takes `pos`. -/
def reinsertStep (pos : Pos) (idx : Nat) (positions : List (Option Pos)) :
    Probe.Action × List (Option Pos) :=
  match positions.getD idx none with
  | none => (.kStop, positions.set idx (some pos))
  | some _ => (.kContinue, positions)

/-- `ReinsertPositionInOrder`. -/
def reinsertPositionInOrder (m : Map) : Option Pos → Map
  | none => m
  | some pos =>
    { m with positions := (m.probeLoop (desiredPos m.mask pos.hash) (reinsertStep pos)
        m.positions).2 }

/-- An occupied slot at distance `0` from its desired slot. -/
def isIdealAt (m : Map) (i : Nat) : Bool :=
  match m.positions.getD i none with
  | some pos => probeDistance m.mask pos.hash i == 0
  | none => false

/-- The first ideally placed slot, the start of a bucket, or `0`. -/
def firstIdeal (m : Map) : Nat :=
  ((List.range m.positions.length).find? m.isIdealAt).getD 0

/-- `Grow`. -/
def grow (m : Map) (newCapacity : Nat) : Throwing Unit :=
  if kMaxSize < newCapacity then (m, .error ⟨"HeaderMap reached its maximum capacity"⟩)
  else
    let firstIdeal := m.firstIdeal
    let oldPositions := m.positions
    let m := { m with positions := List.replicate newCapacity none, mask := newCapacity - 1 }
    -- visit the entries in an order where we can simply reinsert them without bucket stealing
    let m := (oldPositions.drop firstIdeal).foldl reinsertPositionInOrder m
    let m := (oldPositions.take firstIdeal).foldl reinsertPositionInOrder m
    (m, .ok ())

/-- One iteration of `Rebuild`'s loop: the entry inserted again, unless an exception is already
on its way out. -/
def rebuildStep (insert : Map → Bytes → Bytes → Throwing Nat) :
    Throwing Unit → Bytes × Bytes → Throwing Unit
  | (m, .ok ()), entry =>
    let r := insert m entry.1 entry.2
    (r.1, r.2.map fun _ => ())
  | (m, .error e), _ => (m, .error e)

/-- `Rebuild`, with the insertion it calls for each entry: the slots emptied and the entries
inserted again, stopping at an exception. -/
def rebuildWith (insert : Map → Bytes → Bytes → Throwing Nat) (m : Map) : Throwing Unit :=
  m.entries.foldl (rebuildStep insert)
    ({ m with positions := List.replicate m.positions.length none, entries := [] }, .ok ())

/-- `ReserveOne`, with the `Rebuild` it calls and the random seed `ToRed` would draw. -/
def reserveOneWith (rebuild : Map → Throwing Unit) (seed : UInt64 × UInt64) (m : Map) :
    Throwing Unit :=
  let len := m.entries.length
  if m.danger.isYellow then
    if loadFactorAtLeastThreshold len m.positions.length then
      -- load factor is still sane, lets go green, grow and hope for the best
      grow { m with danger := m.danger.toGreen } (m.positions.length * 2)
    else
      -- well, we are under attack it seems, switch to red and rebuild
      rebuild { m with danger := m.danger.toRed seed }
  else if len = m.capacity then
    if len = 0 then
      ({ m with
          mask := kOnStackPositionsCount - 1
          positions := List.replicate kOnStackPositionsCount none }, .ok ())
    else grow m (m.positions.length * 2)
  else (m, .ok ())

/-- `perform_occupied`: the value of the entry found, appended to, replaced or kept. -/
def performOccupied (action : InsertOrModifyOccupiedAction) (entriesIdx : Nat) (value : Bytes)
    (m : Map) : Map :=
  match action with
  | .kAppend => { m with entries := m.entries.modify entriesIdx fun e => (e.1, e.2 ++ [44] ++ value) }
  | .kReplace => { m with entries := m.entries.modify entriesIdx fun e => (e.1, value) }
  -- in a release build the assertion of `kAssert` is gone and it does nothing
  | .kNoop | .kAssert => m

/-- `perform_robinhood`. -/
def performRobinhood (hash dist positionsIdx : Nat) (key value : Bytes) (m : Map) : Map :=
  let entriesIndex := m.entries.length
  let (m, headerIndex) := m.insertEntry key value
  let (m, numDisplaced) := m.doRobinhoodAtPosition positionsIdx ⟨entriesIndex, hash, headerIndex⟩
  if kForwardShiftThreshold ≤ dist ∨ kDisplacementThreshold ≤ numDisplaced then
    { m with danger := m.danger.toYellow }
  else m

/-- `perform_vacant`. -/
def performVacant (hash dist positionsIdx : Nat) (key value : Bytes) (m : Map) : Map :=
  let index := m.entries.length
  let (m, headerIndex) := m.insertEntry key value
  let m := { m with positions := m.positions.set positionsIdx (some ⟨index, hash, headerIndex⟩) }
  if kForwardShiftThreshold ≤ dist then { m with danger := m.danger.toYellow } else m

/-- The body of `DoInsertOrModify`'s probe (`inserter`); its state is the map and the distance
walked. -/
def inserterStep (hash : Nat) (key value : Bytes) (action : InsertOrModifyOccupiedAction)
    (idx : Nat) : Map × Nat → Probe.Action × (Map × Nat)
  | (m, dist) =>
    match m.positions.getD idx none with
    | some pos =>
      if dist > probeDistance m.mask pos.hash idx then
        (.kStop, (m.performRobinhood hash dist idx key value, dist))
      else if pos.hash = hash ∧ strIcaseEqual (m.entryAt pos.entriesIndex).1 key then
        (.kStop, (m.performOccupied action pos.entriesIndex value, dist))
      else (.kContinue, (m, dist + 1))
    | none => (.kStop, (m.performVacant hash dist idx key value, dist))

/-- `DoInsertOrModify`, with the `ReserveOne` it starts with: the index of the entry inserted or
found. -/
def doInsertOrModifyWith (reserve : Map → Throwing Unit) (key : Bytes) (hash : Nat) (value : Bytes)
    (action : InsertOrModifyOccupiedAction) (m : Map) : Throwing Nat :=
  match reserve m with
  | (m, .error e) => (m, .error e)
  | (m, .ok ()) =>
    let r := m.probeLoop (desiredPos m.mask hash) (inserterStep hash key value action) (m, 0)
    let m := r.2.1
    (m, .ok (((r.1.map fun idx => m.positions.getD idx none).join).elim 0 Pos.entriesIndex))

section Insert

variable (sipHash : UInt64 → UInt64 → Bytes → UInt64) (seed : UInt64 × UInt64)

/-- `ReserveOne` whose `Rebuild` may nest `depth` times; at depth `0` the `Rebuild` is empty. -/
def reserveOneAt : Nat → Map → Throwing Unit
  | 0 => reserveOneWith (fun m => (m, .ok ())) seed
  | depth + 1 =>
    reserveOneWith
      (rebuildWith fun m key value =>
        doInsertOrModifyWith (reserveOneAt depth) key (m.hashKey sipHash key) value .kAssert m)
      seed

/-- `ReserveOne`. -/
def reserveOne : Map → Throwing Unit := reserveOneAt sipHash seed 1

/-- `InsertOrModify(MaybeOwnedKey, ...)`: the key is hashed before `DoInsertOrModify` calls
`ReserveOne`. -/
def insertOrModify (m : Map) (key value : Bytes) (action : InsertOrModifyOccupiedAction) :
    Throwing Nat :=
  doInsertOrModifyWith (reserveOne sipHash seed) key (m.hashKey sipHash key) value action m

/-- `InsertOrModify(const PredefinedHeader&, ...)`. -/
def insertOrModifyHeader (m : Map) (header : PredefinedHeader) (value : Bytes)
    (action : InsertOrModifyOccupiedAction) : Throwing Nat :=
  doInsertOrModifyWith (reserveOne sipHash seed) header.name (m.hashKeyHeader sipHash header)
    value action m

end Insert

/-! ## Erasure -/

/-- The body of the probe that fixes the slot of the entry moved into `entriesIndex`: the
first slot pointing past the entries. -/
def fixupStep (entriesIndex entryHash size : Nat) (idx : Nat) (positions : List (Option Pos)) :
    Probe.Action × List (Option Pos) :=
  match positions.getD idx none with
  | some pos =>
    if size ≤ pos.entriesIndex then
      (.kStop, positions.set idx (some ⟨entriesIndex, entryHash, pos.headerIndex⟩))
    else (.kContinue, positions)
  | none => (.kContinue, positions)

/-- The body of the backward shift deletion: the slots and `last_probe`. -/
def backwardShiftStep (mask : Nat) (idx : Nat) :
    List (Option Pos) × Nat → Probe.Action × (List (Option Pos) × Nat)
  | (positions, lastProbe) =>
    match positions.getD idx none with
    | some pos =>
      if probeDistance mask pos.hash idx > 0 then
        -- `positions_[last_probe] = std::exchange(positions_[idx], Pos::None())`
        (.kContinue, ((positions.set idx none).set lastProbe (some pos), idx))
      else (.kStop, (positions, lastProbe))
    | none => (.kStop, (positions, lastProbe))

section Erase

variable (sipHash : UInt64 → UInt64 → Bytes → UInt64)

/-- The slot of the entry moved into `entriesIndex` points to it again, under its hash. -/
def fixupMoved (m : Map) (entriesIndex : Nat) : Map :=
  let entryHash := m.hashKey sipHash (m.entryAt entriesIndex).1
  { m with positions := (m.probeLoop (desiredPos m.mask entryHash)
      (fixupStep entriesIndex entryHash m.entries.length) m.positions).2 }

/-- After the probe, shift all non-ideally placed slots backward. -/
def backwardShift (m : Map) (lastProbe : Nat) : Map :=
  { m with positions := (m.probeLoop (lastProbe + 1) (backwardShiftStep m.mask)
      (m.positions, lastProbe)).2.1 }

/-- `DoErase`: the map, and the iterator returned as the base of the reverse iterator (`0` is
`End()`, the number of entries `Begin()`). -/
def doErase (m : Map) (key : Bytes) (hash : Nat) : Map × Nat :=
  match m.doFind key hash 0 with
  | none => (m, 0)
  | some (positionsIndex, entriesIndex) =>
    let m := { m with positions := m.positions.set positionsIndex none }
    let m := if entriesIndex + 1 ≠ m.entries.length then
        { m with entries := m.entries.set entriesIndex (m.entries.getLastD ([], [])) }
      else m
    let m := { m with entries := m.entries.dropLast }
    -- correct index that points to the entry that had to swap places
    let m := if entriesIndex < m.entries.length then m.fixupMoved sipHash entriesIndex else m
    let m := if !m.entries.isEmpty then m.backwardShift positionsIndex else m
    (m, if entriesIndex < m.entries.length then entriesIndex + 1 else m.entries.length)

/-- `Erase(std::string_view)`. -/
def erase (m : Map) (key : Bytes) : Map × Nat := m.doErase sipHash key (m.hashKey sipHash key)

/-- `Erase(const PredefinedHeader&)`. -/
def eraseHeader (m : Map) (header : PredefinedHeader) : Map × Nat :=
  m.doErase sipHash header.name (m.hashKeyHeader sipHash header)

end Erase

/-- `Clear`: the slots emptied, the entries dropped and the hasher reset. -/
def clear (m : Map) : Map :=
  { m with
    positions := List.replicate m.positions.length none
    entries := []
    danger := Danger.default }

/-- `AreValuesICaseEqual`. -/
def areValuesICaseEqual (lhs rhs : Bytes) : Bool := strIcaseEqual lhs rhs

/-- `operator==`: the same size, and every entry's name found in `other` with a value equal up
to case. -/
def beq (sipHash : UInt64 → UInt64 → Bytes → UInt64) (m other : Map) : Bool :=
  m.size == other.size &&
    m.entries.all fun entry =>
      match other.find sipHash entry.1 with
      | none => false
      | some i => areValuesICaseEqual (other.entryAt i).2 entry.2

end Map

end Headers

end Http

end Userver
