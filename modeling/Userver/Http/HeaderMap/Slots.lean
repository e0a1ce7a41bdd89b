import Userver.Http.HeaderMap.Map

/-!
# One slot at a time: the bodies of the probes of `header_map::Map`

Each probe of `map.cpp` is a `Probe.loop` over a body that looks at one slot.  This module says
once, for each body, what it does at a slot of each kind (empty, occupied by an entry closer to
home, occupied by the key, occupied by another key), so that the proofs about the operations
never unfold a body again.  It also gives the arithmetic of `DesiredPos` and `ProbeDistance`, the
hash outside the red state, and the cases of `ReserveOne` that leave the map alone.
-/

namespace Userver

namespace Http

namespace Headers

/-- The desired slot lies in the table. -/
theorem desiredPos_le (mask hash : Nat) : desiredPos mask hash ≤ mask := Nat.and_le_right

/-- A slot is at distance `0` from itself when it is the desired one. -/
@[simp]
theorem probeDistance_desiredPos (mask hash : Nat) :
    probeDistance mask hash (desiredPos mask hash) = 0 := by
  simp [probeDistance]

namespace Map

variable (sipHash : UInt64 → UInt64 → Bytes → UInt64)

/-- Outside the red state a name hashes as `UnsafeConstexprHasher` computes. -/
theorem hashKey_of_not_isRed {m : Map} (h : m.danger.isRed = false) (key : Bytes) :
    m.hashKey sipHash key = maskHash (unsafeConstexprHasher key) := by
  simp [hashKey, Danger.hashKey, h]

/-- In the red state a name hashes as SipHash under the seed drawn by `ToRed`. -/
theorem hashKey_of_red {m : Map} {k0 k1 : UInt64} (h : m.danger = ⟨.kRed, k0, k1⟩)
    (key : Bytes) : m.hashKey sipHash key = maskHash (sipHash k0 k1 key) := by
  rw [hashKey, h]
  rfl

/-- A slot read as `some pos` holds one of the occupied values. -/
theorem mem_reduceOption_of_getD {l : List (Option Pos)} {i : Nat} {pos : Pos}
    (h : l.getD i none = some pos) : pos ∈ l.reduceOption := by
  rw [List.reduceOption_mem_iff]
  exact List.mem_of_getElem? (List.getElem?_of_getD_eq_some h)

theorem getD_set_of_ne {l : List (Option Pos)} {i j : Nat} (hij : i ≠ j) (a : Option Pos) :
    (l.set i a).getD j none = l.getD j none := by
  simp only [List.getD_eq_getElem?_getD, List.getElem?_set_ne hij]

/-- A probe of a non-empty table whose body stops at the first slot it looks at. -/
theorem probeLoop_of_stop {σ : Type} {m : Map} {start : Nat} {body : Nat → σ → Probe.Action × σ}
    {s s' : σ} (hstart : start < m.positions.length) (h : body start s = (.kStop, s')) :
    m.probeLoop start body s = (some start, s') := by
  obtain ⟨fuel, hfuel⟩ : ∃ fuel, m.positions.length = fuel + 1 :=
    ⟨m.positions.length - 1, by omega⟩
  unfold probeLoop
  rw [hfuel] at hstart ⊢
  rw [Probe.loop_succ_of_stop (by rw [if_pos hstart]; exact h), if_pos hstart]

/-! ## `DoFind` -/

section FindStep

variable {m : Map} {key : Bytes} {hash : Nat} {headerIndex : Int} {idx dist : Nat}
  {res : Option (Nat × Nat)}

theorem findStep_of_none (h : m.positions.getD idx none = none) :
    m.findStep key hash headerIndex idx (dist, res) = (.kStop, (dist, res)) := by
  simp only [findStep, h]

theorem findStep_of_far {pos : Pos} (h : m.positions.getD idx none = some pos)
    (hfar : dist > probeDistance m.mask pos.hash idx) :
    m.findStep key hash headerIndex idx (dist, res) = (.kStop, (dist, res)) := by
  simp only [findStep, h, if_pos hfar]

theorem findStep_of_match {pos : Pos} (h : m.positions.getD idx none = some pos)
    (hnear : ¬dist > probeDistance m.mask pos.hash idx)
    (hmatch : pos.hash = hash ∧
      (headerIndex = pos.headerIndex ∨ strIcaseEqual (m.entryAt pos.entriesIndex).1 key)) :
    m.findStep key hash headerIndex idx (dist, res) =
      (.kStop, (dist, some (idx, pos.entriesIndex))) := by
  simp only [findStep, h, if_neg hnear, if_pos hmatch]

theorem findStep_of_skip {pos : Pos} (h : m.positions.getD idx none = some pos)
    (hnear : ¬dist > probeDistance m.mask pos.hash idx)
    (hskip : ¬(pos.hash = hash ∧
      (headerIndex = pos.headerIndex ∨ strIcaseEqual (m.entryAt pos.entriesIndex).1 key))) :
    m.findStep key hash headerIndex idx (dist, res) = (.kContinue, (dist + 1, res)) := by
  simp only [findStep, h, if_neg hnear, if_neg hskip]

end FindStep

/-- `DoFind` finds nothing when no occupied slot has the hash and the header index or the name. -/
theorem doFind_eq_none {m : Map} {key : Bytes} {hash : Nat} {headerIndex : Int}
    (h : ∀ pos ∈ m.positions.reduceOption, ¬(pos.hash = hash ∧
      (headerIndex = pos.headerIndex ∨ strIcaseEqual (m.entryAt pos.entriesIndex).1 key))) :
    m.doFind key hash headerIndex = none := by
  unfold doFind
  split_ifs with hempty
  · rfl
  have hL : 0 < m.positions.length := by
    cases hp : m.positions with
    | nil => rw [hp] at hempty; exact absurd rfl hempty
    | cons _ _ => simp
  -- every step keeps the result empty: a step that would fill it matches a slot
  refine Probe.loop_invariant hL (fun s : Nat × Option (Nat × Nat) => s.2 = none)
    (fun i s _ hs => ?_) _ _ (rfl : ((0, none) : Nat × Option (Nat × Nat)).2 = none)
  obtain ⟨dist, res⟩ := s
  cases hs
  cases hslot : m.positions.getD i none with
  | none => rw [findStep_of_none hslot]
  | some pos =>
    by_cases hfar : dist > probeDistance m.mask pos.hash i
    · rw [findStep_of_far hslot hfar]
    · by_cases hmatch : pos.hash = hash ∧
          (headerIndex = pos.headerIndex ∨ strIcaseEqual (m.entryAt pos.entriesIndex).1 key)
      · exact absurd hmatch (h pos (mem_reduceOption_of_getD hslot))
      · rw [findStep_of_skip hslot hfar hmatch]

/-- `DoErase` of a name `DoFind` does not find leaves the map alone and returns `End()`. -/
theorem doErase_of_doFind_eq_none (sipHash : UInt64 → UInt64 → Bytes → UInt64) {m : Map}
    {key : Bytes} {hash : Nat} (h : m.doFind key hash 0 = none) :
    m.doErase sipHash key hash = (m, 0) := by
  unfold doErase
  rw [h]

/-! ## `DoInsertOrModify` -/

section InserterStep

variable {m : Map} {key value : Bytes} {hash : Nat} {action : InsertOrModifyOccupiedAction}
  {idx dist : Nat}

theorem inserterStep_of_none (h : m.positions.getD idx none = none) :
    inserterStep hash key value action idx (m, dist) =
      (.kStop, (m.performVacant hash dist idx key value, dist)) := by
  simp only [inserterStep, h]

theorem inserterStep_of_far {pos : Pos} (h : m.positions.getD idx none = some pos)
    (hfar : dist > probeDistance m.mask pos.hash idx) :
    inserterStep hash key value action idx (m, dist) =
      (.kStop, (m.performRobinhood hash dist idx key value, dist)) := by
  simp only [inserterStep, h, if_pos hfar]

theorem inserterStep_of_match {pos : Pos} (h : m.positions.getD idx none = some pos)
    (hnear : ¬dist > probeDistance m.mask pos.hash idx)
    (hmatch : pos.hash = hash ∧ strIcaseEqual (m.entryAt pos.entriesIndex).1 key) :
    inserterStep hash key value action idx (m, dist) =
      (.kStop, (m.performOccupied action pos.entriesIndex value, dist)) := by
  simp only [inserterStep, h, if_neg hnear, if_pos hmatch]

theorem inserterStep_of_skip {pos : Pos} (h : m.positions.getD idx none = some pos)
    (hnear : ¬dist > probeDistance m.mask pos.hash idx)
    (hskip : ¬(pos.hash = hash ∧ strIcaseEqual (m.entryAt pos.entriesIndex).1 key)) :
    inserterStep hash key value action idx (m, dist) = (.kContinue, (m, dist + 1)) := by
  simp only [inserterStep, h, if_neg hnear, if_neg hskip]

end InserterStep

/-- `DoFind` on a table with slots is its probe from the desired slot. -/
theorem doFind_of_length_pos {m : Map} (h : 0 < m.positions.length) (key : Bytes) (hash : Nat)
    (headerIndex : Int) :
    m.doFind key hash headerIndex =
      (m.probeLoop (desiredPos m.mask hash) (m.findStep key hash headerIndex) (0, none)).2.2 := by
  have hne : m.positions.isEmpty = false := by
    cases hp : m.positions with
    | nil => rw [hp] at h; cases h
    | cons _ _ => rfl
  simp only [doFind, hne, Bool.false_eq_true, if_false]

/-- `DoInsertOrModify` when `ReserveOne` returns and the probe stops at slot `idx`: the entry
index of that slot. -/
theorem doInsertOrModifyWith_of_stop {reserve : Map → Throwing Unit} {m m' m'' : Map}
    {key : Bytes} {hash : Nat} {value : Bytes} {action : InsertOrModifyOccupiedAction}
    {idx dist : Nat} (h : reserve m = (m', .ok ()))
    (hloop : m'.probeLoop (desiredPos m'.mask hash) (inserterStep hash key value action) (m', 0) =
      (some idx, (m'', dist))) :
    doInsertOrModifyWith reserve key hash value action m =
      (m'', .ok ((m''.positions.getD idx none).elim 0 Pos.entriesIndex)) := by
  simp only [doInsertOrModifyWith, h, hloop, Option.map_some, Option.join_some]

/-! ## `DoRobinhoodAtPosition` -/

section RobinhoodStep

variable {positions : List (Option Pos)} {carried : Pos} {numDisplaced idx : Nat}

theorem robinhoodStep_of_none (h : positions.getD idx none = none) :
    robinhoodStep idx (positions, carried, numDisplaced) =
      (.kStop, (positions.set idx (some carried), carried, numDisplaced)) := by
  simp only [robinhoodStep, h]

theorem robinhoodStep_of_some {pos : Pos} (h : positions.getD idx none = some pos) :
    robinhoodStep idx (positions, carried, numDisplaced) =
      (.kContinue, (positions.set idx (some carried), pos, numDisplaced + 1)) := by
  simp only [robinhoodStep, h]

end RobinhoodStep

@[simp]
theorem doRobinhoodAtPosition_entries (m : Map) (idx : Nat) (oldPos : Pos) :
    (m.doRobinhoodAtPosition idx oldPos).1.entries = m.entries := rfl

@[simp]
theorem doRobinhoodAtPosition_mask (m : Map) (idx : Nat) (oldPos : Pos) :
    (m.doRobinhoodAtPosition idx oldPos).1.mask = m.mask := rfl

@[simp]
theorem doRobinhoodAtPosition_danger (m : Map) (idx : Nat) (oldPos : Pos) :
    (m.doRobinhoodAtPosition idx oldPos).1.danger = m.danger := rfl

/-! ## `Grow` -/

section ReinsertStep

variable {pos : Pos} {idx : Nat} {positions : List (Option Pos)}

theorem reinsertStep_of_none (h : positions.getD idx none = none) :
    reinsertStep pos idx positions = (.kStop, positions.set idx (some pos)) := by
  simp only [reinsertStep, h]

theorem reinsertStep_of_some {pos' : Pos} (h : positions.getD idx none = some pos') :
    reinsertStep pos idx positions = (.kContinue, positions) := by
  simp only [reinsertStep, h]

end ReinsertStep

@[simp]
theorem reinsertPositionInOrder_none (m : Map) : m.reinsertPositionInOrder none = m := rfl

/-- `Grow` within the maximum size: the slots from the first ideal one on, then the ones before
it, reinserted into an empty table of the new size. -/
theorem grow_of_le {m : Map} {newCapacity : Nat} (h : newCapacity ≤ kMaxSize) :
    m.grow newCapacity =
      ((m.positions.drop m.firstIdeal ++ m.positions.take m.firstIdeal).foldl
        reinsertPositionInOrder
        { m with positions := List.replicate newCapacity none, mask := newCapacity - 1 },
        .ok ()) := by
  simp only [grow, List.foldl_append, if_neg (Nat.not_lt.2 h)]

/-! ## What an insertion writes -/

/-- `perform_vacant` appends the entry and fills the slot. -/
theorem performVacant_eq (hash dist idx : Nat) (key value : Bytes) (m : Map) :
    m.performVacant hash dist idx key value =
      { m with
        entries := m.entries ++ [(key, value)]
        positions := m.positions.set idx
          (some ⟨m.entries.length, hash, getHeaderIndexForInsertion key⟩)
        danger := if kForwardShiftThreshold ≤ dist then m.danger.toYellow else m.danger } := by
  simp only [performVacant, insertEntry]
  split <;> rfl

/-- `perform_robinhood` appends the entry and runs the displacement chain from the slot. -/
theorem performRobinhood_positions (hash dist idx : Nat) (key value : Bytes) (m : Map) :
    (m.performRobinhood hash dist idx key value).positions =
      ({ m with entries := m.entries ++ [(key, value)] }.doRobinhoodAtPosition idx
        ⟨m.entries.length, hash, getHeaderIndexForInsertion key⟩).1.positions := by
  unfold performRobinhood insertEntry
  dsimp only
  split_ifs <;> rfl

theorem performRobinhood_entries (hash dist idx : Nat) (key value : Bytes) (m : Map) :
    (m.performRobinhood hash dist idx key value).entries = m.entries ++ [(key, value)] := by
  unfold performRobinhood insertEntry
  dsimp only
  split_ifs <;> rfl

theorem performRobinhood_mask (hash dist idx : Nat) (key value : Bytes) (m : Map) :
    (m.performRobinhood hash dist idx key value).mask = m.mask := by
  unfold performRobinhood insertEntry
  dsimp only
  split_ifs <;> rfl

/-- `perform_robinhood` may turn the state yellow, and does nothing else to it. -/
theorem performRobinhood_danger (hash dist idx : Nat) (key value : Bytes) (m : Map) :
    (m.performRobinhood hash dist idx key value).danger = m.danger ∨
      (m.performRobinhood hash dist idx key value).danger = m.danger.toYellow := by
  unfold performRobinhood insertEntry
  dsimp only
  split_ifs
  · exact .inr rfl
  · exact .inl rfl

/-- `perform_occupied` changes a value, never a slot. -/
@[simp]
theorem performOccupied_positions (action : InsertOrModifyOccupiedAction) (idx : Nat)
    (value : Bytes) (m : Map) : (m.performOccupied action idx value).positions = m.positions := by
  cases action <;> rfl

@[simp]
theorem performOccupied_mask (action : InsertOrModifyOccupiedAction) (idx : Nat)
    (value : Bytes) (m : Map) : (m.performOccupied action idx value).mask = m.mask := by
  cases action <;> rfl

@[simp]
theorem performOccupied_danger (action : InsertOrModifyOccupiedAction) (idx : Nat)
    (value : Bytes) (m : Map) : (m.performOccupied action idx value).danger = m.danger := by
  cases action <;> rfl

/-! ## `ReserveOne` -/

section Reserve

variable {rebuild : Map → Throwing Unit} {seed : UInt64 × UInt64} {m : Map}

/-- Yellow with a sane load: back to green, and `Grow`. -/
theorem reserveOneWith_of_grow (hy : m.danger.isYellow = true)
    (hload : loadFactorAtLeastThreshold m.entries.length m.positions.length = true) :
    reserveOneWith rebuild seed m =
      grow { m with danger := m.danger.toGreen } (m.positions.length * 2) := by
  simp [reserveOneWith, hy, hload]

/-- Yellow with a load under `0.2`: red, and `Rebuild`. -/
theorem reserveOneWith_of_rebuild (hy : m.danger.isYellow = true)
    (hload : loadFactorAtLeastThreshold m.entries.length m.positions.length = false) :
    reserveOneWith rebuild seed m = rebuild { m with danger := m.danger.toRed seed } := by
  simp [reserveOneWith, hy, hload]

/-- At capacity with entries: `Grow`. -/
theorem reserveOneWith_of_full (hy : m.danger.isYellow = false)
    (hcap : m.entries.length = m.capacity) (hne : m.entries.length ≠ 0) :
    reserveOneWith rebuild seed m = grow m (m.positions.length * 2) := by
  have hne' : m.capacity ≠ 0 := hcap ▸ hne
  simp [reserveOneWith, hy, hcap, hne']

/-- The first insertion: `kOnStackPositionsCount` empty slots. -/
theorem reserveOneWith_of_empty (hy : m.danger.isYellow = false)
    (hcap : m.entries.length = m.capacity) (hzero : m.entries.length = 0) :
    reserveOneWith rebuild seed m =
      ({ m with
          mask := kOnStackPositionsCount - 1
          positions := List.replicate kOnStackPositionsCount none }, .ok ()) := by
  simp [reserveOneWith, hy, hcap, ← hzero]

end Reserve


/-- Outside the yellow state, short of capacity, `ReserveOne` does nothing. -/
theorem reserveOneWith_of_ne_capacity {rebuild : Map → Throwing Unit} {seed : UInt64 × UInt64}
    {m : Map} (hy : m.danger.isYellow = false) (hlt : m.entries.length ≠ m.capacity) :
    reserveOneWith rebuild seed m = (m, .ok ()) := by
  simp [reserveOneWith, hy, hlt]

theorem reserveOneAt_of_ne_capacity {seed : UInt64 × UInt64} {m : Map}
    (hy : m.danger.isYellow = false) (hlt : m.entries.length ≠ m.capacity) (depth : Nat) :
    reserveOneAt sipHash seed depth m = (m, .ok ()) := by
  cases depth <;> exact reserveOneWith_of_ne_capacity hy hlt

end Map

end Headers

end Http

end Userver
