import Userver.Http.HeaderMap.Insert
import Userver.Http.HeaderMap.Api

/-!
# A flood of colliding names

`UnsafeConstexprHasher` masks every byte with `0x20` before hashing (`foldBytes`), so `'['`
(`0x5B`) and `'{'` (`0x7B`) hash alike: the 256 names of eight such bytes (`floodKey`) all share
one hash (`floodHash`) while no two are equal up to ASCII case.  Inserted one after the other
into an empty `Map` they form a single run of slots from their desired slot (`floodMap`), which
`Grow` keeps a single run (`grow_floodMap`).  The sizes and danger states the run goes through
are computed by `floodShape`, whose steps `ReserveOne` follows (`flood_run`): after 131 names the
table has 1024 slots and is yellow with a load under `0.2`.

The 132nd insertion hashes its name while the state is yellow, and then `ReserveOne` turns the
state red and `Rebuild`s the table under SipHash.  The name is stored under the hash computed
before, which the red state no longer computes for it: unless SipHash happens to give it that
hash, `Find` of the name fails (`flood_hides_last_name`), the slot's stored hash disagrees with
its entry's (`flood_stale_hash`), and an erase-while-iterating loop stops at its first step
(`flood_iterate_and_erase`).
-/

namespace Userver

namespace Http

namespace Headers

/-! ## The names -/

/-- The `i`-th name of the flood: eight bytes, `'{'` where `i` has a bit and `'['` elsewhere. -/
def floodKey (i : Nat) : Bytes := (List.range 8).map fun j => if i.testBit j then 0x7B else 0x5B

/-- The hash `UnsafeConstexprHasher` gives every name of the flood. -/
def floodHash : Nat := maskHash (unsafeConstexprHasher (floodKey 0))

theorem foldBytes_floodKey (i : Nat) : foldBytes (floodKey i) = List.replicate 8 0x7B := by
  have hbyte : ∀ b : Bool, foldByte (if b then 0x7B else 0x5B) = 0x7B := by decide
  simp [foldBytes, floodKey, List.map_map, Function.comp_def, hbyte]

theorem maskHash_floodKey (i : Nat) : maskHash (unsafeConstexprHasher (floodKey i)) = floodHash := by
  rw [floodHash, unsafeConstexprHasher_eq_of_foldBytes
    ((foldBytes_floodKey i).trans (foldBytes_floodKey 0).symm)]

/-- The flood's names are their own lower case. -/
theorem map_toLowerAscii_floodKey (i : Nat) : (floodKey i).map toLowerAscii = floodKey i := by
  have hbyte : ∀ b : Bool, toLowerAscii (if b then 0x7B else 0x5B) = if b then 0x7B else 0x5B := by
    decide
  simp [floodKey, List.map_map, Function.comp_def, hbyte]

theorem floodKey_injective {i j : Nat} (hi : i < 256) (hj : j < 256)
    (h : floodKey i = floodKey j) : i = j := by
  apply Nat.eq_of_testBit_eq
  intro k
  by_cases hk : k < 8
  · have hbyte := congrArg (fun l : Bytes => l.getD k 0) h
    simp only [floodKey, List.getD_eq_getElem?_getD, List.getElem?_map,
      List.getElem?_range hk, Option.map_some, Option.getD_some] at hbyte
    cases hik : i.testBit k <;> cases hjk : j.testBit k <;> simp_all
  · have h256 : (256 : Nat) ≤ 2 ^ k :=
      (Nat.pow_le_pow_right (by decide) (by omega : 8 ≤ k)).trans' (by decide)
    rw [Nat.testBit_eq_false_of_lt (by omega), Nat.testBit_eq_false_of_lt (by omega)]

/-- Two names of the flood are equal up to case only when they are the same name. -/
theorem strIcaseEqual_floodKey {i j : Nat} (hi : i < 256) (hj : j < 256) :
    strIcaseEqual (floodKey i) (floodKey j) = true ↔ i = j := by
  rw [strIcaseEqual_iff, map_toLowerAscii_floodKey, map_toLowerAscii_floodKey]
  exact ⟨floodKey_injective hi hj, fun h => h ▸ rfl⟩

/-! ## Tables of `2 ^ k` slots -/

theorem desiredPos_two_pow (k hash : Nat) : desiredPos (2 ^ k - 1) hash = hash % 2 ^ k :=
  Nat.and_two_pow_sub_one_eq_mod hash k

/-- `ProbeDistance` in a table of `2 ^ k` slots: how far clockwise the slot is from the desired
one. -/
theorem probeDistance_two_pow {k : Nat} (hk : k ≤ 64) (hash idx : Nat) :
    probeDistance (2 ^ k - 1) hash idx = (idx + 2 ^ k - hash % 2 ^ k) % 2 ^ k := by
  have hd : hash % 2 ^ k < 2 ^ k := Nat.mod_lt _ (Nat.two_pow_pos k)
  -- the `size_t` subtraction wraps at `2 ^ 64`, a multiple of the table size
  obtain ⟨q, hq⟩ : ∃ q, 2 ^ 64 = 2 ^ k * (q + 1) := by
    refine ⟨2 ^ (64 - k) - 1, ?_⟩
    rw [Nat.sub_add_cancel Nat.one_le_two_pow, ← Nat.pow_add, Nat.add_sub_cancel' hk]
  have hshift : idx + 2 ^ 64 - hash % 2 ^ k = (idx + 2 ^ k - hash % 2 ^ k) + 2 ^ k * q := by
    rw [hq, Nat.mul_succ]
    omega
  unfold probeDistance
  rw [desiredPos_two_pow, Nat.and_two_pow_sub_one_eq_mod,
    Nat.mod_mod_of_dvd _ (Nat.pow_dvd_pow 2 hk), hshift, Nat.add_mul_mod_self_left]

/-- Going `j` slots clockwise from `d` and measuring back gives `j`. -/
theorem offset_add {L d j : Nat} (hd : d < L) (hj : j < L) : ((d + j) % L + L - d) % L = j := by
  by_cases hlt : d + j < L
  · rw [Nat.mod_eq_of_lt hlt, show d + j + L - d = j + L by omega, Nat.add_mod_right,
      Nat.mod_eq_of_lt hj]
  · have hwrap : (d + j) % L = d + j - L := by
      rw [Nat.mod_eq_sub_mod (by omega), Nat.mod_eq_of_lt (by omega)]
    rw [hwrap, show d + j - L + L - d = j by omega, Nat.mod_eq_of_lt hj]

/-- The only slot at distance `0` from `d` is `d`. -/
theorem offset_eq_zero {L d i : Nat} (hd : d < L) (hi : i < L) : (i + L - d) % L = 0 ↔ i = d := by
  by_cases hlt : i < d
  · rw [Nat.mod_eq_of_lt (by omega)]
    omega
  · rw [show i + L - d = (i - d) + L by omega, Nat.add_mod_right, Nat.mod_eq_of_lt (by omega)]
    omega

/-! ## The run of the flood -/

/-- The slot value of the `i`-th name: its entry index, the flood's hash and its header index. -/
def floodPos (i : Nat) : Pos := ⟨i, floodHash, getHeaderIndexForInsertion (floodKey i)⟩

/-- `L` slots in which the first `n` names of the flood fill the run from their desired slot: the
`i`-th name is `i` slots clockwise from it. -/
def floodSlots (L n : Nat) : List (Option Pos) :=
  (List.range L).map fun j =>
    let i := (j + L - desiredPos (L - 1) floodHash) % L
    if i < n then some (floodPos i) else none

/-- The map holding the first `n` names of the flood, each with `value`, in `L` slots. -/
def floodMap (L n : Nat) (danger : Danger) (value : Bytes) : Map :=
  ⟨L - 1, floodSlots L n, (List.range n).map fun i => (floodKey i, value), danger⟩

section FloodMap

variable {L n : Nat} {danger : Danger} {value : Bytes}

@[simp]
theorem floodSlots_length (L n : Nat) : (floodSlots L n).length = L := by simp [floodSlots]

theorem floodSlots_zero (L : Nat) : floodSlots L 0 = List.replicate L none := by
  simp [floodSlots, List.map_const']

@[simp]
theorem floodMap_positions : (floodMap L n danger value).positions = floodSlots L n := rfl

@[simp]
theorem floodMap_mask : (floodMap L n danger value).mask = L - 1 := rfl

@[simp]
theorem floodMap_entries :
    (floodMap L n danger value).entries = (List.range n).map fun i => (floodKey i, value) := rfl

@[simp]
theorem floodMap_danger : (floodMap L n danger value).danger = danger := rfl

/-- The entries of a map that are the first `k` values of `f`. -/
theorem entryAt_of_entries_range {m : Map} {f : Nat → Bytes × Bytes} {k : Nat}
    (h : m.entries = (List.range k).map f) {i : Nat} (hi : i < k) : m.entryAt i = f i := by
  simp [Map.entryAt, h, List.getD_eq_getElem?_getD, hi]

theorem floodMap_entryAt {i : Nat} (hi : i < n) :
    (floodMap L n danger value).entryAt i = (floodKey i, value) :=
  entryAt_of_entries_range (f := fun i => (floodKey i, value)) floodMap_entries hi

/-- The flood's desired slot lies in the table. -/
theorem floodDesired_lt (hL : 0 < L) : desiredPos (L - 1) floodHash < L :=
  Nat.lt_of_le_of_lt (desiredPos_le _ _) (by omega)

/-- Slot `j` holds the name as far from the desired slot as `j` is, if there are that many. -/
theorem floodSlots_getD {j : Nat} (hj : j < L) :
    (floodSlots L n).getD j none =
      if (j + L - desiredPos (L - 1) floodHash) % L < n then
        some (floodPos ((j + L - desiredPos (L - 1) floodHash) % L))
      else none := by
  simp [floodSlots, List.getD_eq_getElem?_getD, hj]

/-- The slot `j` clockwise from the desired one holds the `j`-th name, if there are that many. -/
theorem floodSlots_getD_add {j : Nat} (hL : 0 < L) (hj : j < L) :
    (floodSlots L n).getD ((desiredPos (L - 1) floodHash + j) % L) none =
      if j < n then some (floodPos j) else none := by
  rw [floodSlots_getD (Nat.mod_lt _ hL), offset_add (floodDesired_lt hL) hj]

/-- Filling the slot after the run extends the run by one name. -/
theorem floodSlots_set (hn : n < L) :
    (floodSlots L n).set ((desiredPos (L - 1) floodHash + n) % L) (some (floodPos n)) =
      floodSlots L (n + 1) := by
  have hL : 0 < L := by omega
  have hd := floodDesired_lt hL
  apply List.ext_getElem (by simp)
  intro j hj₁ hj₂
  simp only [floodSlots_length] at hj₂
  rw [← List.getD_eq_getElem _ none hj₁, ← List.getD_eq_getElem _ none (by simpa using hj₂)]
  by_cases hjn : j = (desiredPos (L - 1) floodHash + n) % L
  · -- the slot filled is the one `n` slots from the desired one
    subst hjn
    rw [List.getD_eq_getElem?_getD, List.getElem?_set_self (by simpa using hj₁), Option.getD_some,
      floodSlots_getD_add hL hn, if_pos (Nat.lt_succ_self n)]
  · rw [Map.getD_set_of_ne (Ne.symm hjn), floodSlots_getD hj₂, floodSlots_getD hj₂]
    -- any other slot is not `n` slots from the desired one
    have hoff : (j + L - desiredPos (L - 1) floodHash) % L ≠ n := by
      intro h
      apply hjn
      rw [← h, Probe.start_add_gap hd hj₂]
    by_cases hlt : (j + L - desiredPos (L - 1) floodHash) % L < n
    · rw [if_pos hlt, if_pos (Nat.lt_succ_of_lt hlt)]
    · rw [if_neg hlt, if_neg (by omega)]

/-- Outside the red state the flood's names hash to `floodHash`. -/
theorem floodMap_hashKey (sipHash : UInt64 → UInt64 → Bytes → UInt64)
    (hred : danger.isRed = false) (i : Nat) :
    (floodMap L n danger value).hashKey sipHash (floodKey i) = floodHash := by
  rw [Map.hashKey_of_not_isRed sipHash hred, maskHash_floodKey]

/-! ## One more name -/

/-- The insertion probe for the next name walks the run and stops at the empty slot after it. -/
theorem inserterLoop_floodMap {k : Nat} (hk : k ≤ 64) (hn : n < 2 ^ k) (hn256 : n < 256)
    (action : InsertOrModifyOccupiedAction) :
    (floodMap (2 ^ k) n danger value).probeLoop (desiredPos (2 ^ k - 1) floodHash)
        (Map.inserterStep floodHash (floodKey n) value action) (floodMap (2 ^ k) n danger value, 0) =
      (some ((desiredPos (2 ^ k - 1) floodHash + n) % 2 ^ k),
        ((floodMap (2 ^ k) n danger value).performVacant floodHash n
          ((desiredPos (2 ^ k - 1) floodHash + n) % 2 ^ k) (floodKey n) value, n)) := by
  have hL : 0 < 2 ^ k := Nat.two_pow_pos k
  have hd := floodDesired_lt hL
  unfold Map.probeLoop
  rw [floodMap_positions, floodSlots_length]
  refine Probe.loop_of_steps hL (fun j => (floodMap (2 ^ k) n danger value, j)) n (2 ^ k) _ hd.le
    hn (fun j hj => ?_) ?_
  · -- the `j`-th name is `j` slots on: as far from home as the probe, and another name
    have hslot := floodSlots_getD_add (n := n) hL (Nat.lt_trans hj hn)
    rw [if_pos hj] at hslot
    have hdist : probeDistance (2 ^ k - 1) floodHash
        ((desiredPos (2 ^ k - 1) floodHash + j) % 2 ^ k) = j := by
      rw [probeDistance_two_pow hk, ← desiredPos_two_pow k floodHash,
        offset_add hd (Nat.lt_trans hj hn)]
    refine Map.inserterStep_of_skip hslot (by simp only [floodMap_mask, floodPos, hdist]; omega) ?_
    rintro ⟨-, hkey⟩
    have hentry : (floodMap (2 ^ k) n danger value).entryAt (floodPos j).entriesIndex =
        (floodKey j, value) := floodMap_entryAt hj
    rw [hentry, strIcaseEqual_floodKey (by omega) hn256] at hkey
    omega
  · have hslot := floodSlots_getD_add (n := n) hL hn
    rw [if_neg (Nat.lt_irrefl n)] at hslot
    exact Map.inserterStep_of_none hslot

/-- The empty slot after the run takes the next name. -/
theorem performVacant_floodMap {k : Nat} (hn : n < 2 ^ k) :
    (floodMap (2 ^ k) n danger value).performVacant floodHash n
        ((desiredPos (2 ^ k - 1) floodHash + n) % 2 ^ k) (floodKey n) value =
      floodMap (2 ^ k) (n + 1)
        (if kForwardShiftThreshold ≤ n then danger.toYellow else danger) value := by
  rw [Map.performVacant_eq]
  simp only [floodMap, List.length_map, List.length_range, List.range_succ, List.map_append,
    List.map_cons, List.map_nil]
  rw [← floodSlots_set hn]
  rfl

/-- Inserting the next name after a `ReserveOne` that left the run in `2 ^ k` slots. -/
theorem insertOrModify_floodMap (sipHash : UInt64 → UInt64 → Bytes → UInt64)
    (seed : UInt64 × UInt64) {k : Nat} (hk : k ≤ 64) (hn : n < 2 ^ k) (hn256 : n < 256)
    {m : Map} (hkey : m.hashKey sipHash (floodKey n) = floodHash)
    (hres : Map.reserveOne sipHash seed m = (floodMap (2 ^ k) n danger value, .ok ()))
    (action : InsertOrModifyOccupiedAction) :
    (m.insertOrModify sipHash seed (floodKey n) value action).1 =
      floodMap (2 ^ k) (n + 1)
        (if kForwardShiftThreshold ≤ n then danger.toYellow else danger) value := by
  rw [Map.insertOrModify, hkey,
    Map.doInsertOrModifyWith_of_stop hres (inserterLoop_floodMap hk hn hn256 action),
    performVacant_floodMap hn]

/-! ## `Grow` keeps the run -/

/-- Reinserting the next name into a run in a fresh table extends it. -/
theorem reinsert_floodPos {m : Map} {j : Nat} (hj : j < m.positions.length)
    (hpositions : m.positions = floodSlots m.positions.length j)
    (hmask : m.mask = m.positions.length - 1) :
    m.reinsertPositionInOrder (some (floodPos j)) =
      { m with positions := floodSlots m.positions.length (j + 1) } := by
  have hL : 0 < m.positions.length := by omega
  have hd := floodDesired_lt hL
  have hloop : m.probeLoop (desiredPos m.mask floodHash) (Map.reinsertStep (floodPos j))
      m.positions = (some ((desiredPos (m.positions.length - 1) floodHash + j) %
        m.positions.length), floodSlots m.positions.length (j + 1)) := by
    unfold Map.probeLoop
    rw [hmask]
    refine Probe.loop_of_steps hL (fun _ => m.positions) j _ _ hd.le hj (fun i hi => ?_) ?_
    · have hslot := floodSlots_getD_add (n := j) hL (Nat.lt_trans hi hj)
      rw [if_pos hi, ← hpositions] at hslot
      exact Map.reinsertStep_of_some hslot
    · have hslot := floodSlots_getD_add (n := j) hL hj
      rw [if_neg (Nat.lt_irrefl j), ← hpositions] at hslot
      rw [Map.reinsertStep_of_none hslot]
      have hset := floodSlots_set (L := m.positions.length) hj
      rw [← hpositions] at hset
      rw [hset]
  simp only [Map.reinsertPositionInOrder]
  rw [show (floodPos j).hash = floodHash from rfl, hloop]

/-- In a nonempty run only the desired slot holds its name at distance `0`. -/
theorem isIdealAt_floodMap {k : Nat} (hk : k ≤ 64) (hn : 0 < n) {i : Nat} (hi : i < 2 ^ k) :
    (floodMap (2 ^ k) n danger value).isIdealAt i = decide (i = desiredPos (2 ^ k - 1) floodHash) := by
  have hd := floodDesired_lt (Nat.two_pow_pos k)
  unfold Map.isIdealAt
  rw [floodMap_positions, floodSlots_getD hi]
  by_cases hlt : (i + 2 ^ k - desiredPos (2 ^ k - 1) floodHash) % 2 ^ k < n
  · rw [if_pos hlt]
    simp only [floodPos, floodMap_mask]
    rw [probeDistance_two_pow hk, ← desiredPos_two_pow k floodHash]
    rw [Bool.beq_eq_decide_eq]
    exact decide_eq_decide.2 (offset_eq_zero hd hi)
  · -- an empty slot: not the desired one, which holds the first name
    rw [if_neg hlt]
    have hne : i ≠ desiredPos (2 ^ k - 1) floodHash := by
      rintro rfl
      rw [(offset_eq_zero hd hi).2 rfl] at hlt
      exact hlt hn
    simpa using hne

/-- `Grow` starts its reinsertion at the desired slot of the run. -/
theorem firstIdeal_floodMap {k : Nat} (hk : k ≤ 64) (hn : 0 < n) :
    (floodMap (2 ^ k) n danger value).firstIdeal = desiredPos (2 ^ k - 1) floodHash := by
  have hd := floodDesired_lt (Nat.two_pow_pos k)
  have hfind : (List.range (2 ^ k)).find? (floodMap (2 ^ k) n danger value).isIdealAt =
      some (desiredPos (2 ^ k - 1) floodHash) := by
    rw [List.find?_range_eq_some]
    refine ⟨by simp [isIdealAt_floodMap hk hn hd], List.mem_range.2 hd, fun j hj => ?_⟩
    rw [isIdealAt_floodMap hk hn (by omega)]
    simp only [Bool.not_eq_true', decide_eq_false_iff_not]
    omega
  unfold Map.firstIdeal
  rw [floodMap_positions, floodSlots_length, hfind, Option.getD_some]

/-- The slots read from the desired slot on: the names in order, then the empty slots. -/
theorem floodSlots_rotate (hL : 0 < L) :
    (floodSlots L n).drop (desiredPos (L - 1) floodHash) ++
        (floodSlots L n).take (desiredPos (L - 1) floodHash) =
      (List.range L).map fun j => if j < n then some (floodPos j) else none := by
  have hd := floodDesired_lt hL
  rw [← List.rotate_eq_drop_append_take (by simpa using hd.le)]
  apply List.ext_getElem (by simp)
  intro j hj₁ hj₂
  simp only [List.length_map, List.length_range] at hj₂
  rw [List.getElem_rotate, ← List.getD_eq_getElem _ none]
  simp only [floodSlots_length]
  rw [Nat.add_comm, floodSlots_getD_add hL hj₂]
  simp

/-- Reinserting the slots of a run, read from its desired slot on, into a fresh table of `L'`
slots lays the names out as a run again: after `j` of them, the first `min j n` names. -/
theorem foldl_reinsert_flood {m : Map} {L' : Nat} (hL' : n ≤ L')
    (hpositions : m.positions = List.replicate L' none) (hmask : m.mask = L' - 1) (j : Nat) :
    ((List.range j).map fun i => if i < n then some (floodPos i) else none).foldl
        Map.reinsertPositionInOrder m =
      { m with positions := floodSlots L' (min j n) } := by
  induction j with
  | zero =>
    rw [Nat.zero_min, floodSlots_zero, ← hpositions]
    rfl
  | succ j ih =>
    rw [List.range_succ, List.map_append, List.foldl_append, ih]
    simp only [List.map_cons, List.map_nil, List.foldl_cons, List.foldl_nil]
    by_cases hj : j < n
    · -- the next name extends the run
      rw [if_pos hj, Nat.min_eq_left hj.le, Nat.min_eq_left hj]
      rw [reinsert_floodPos (by simp; omega) (by simp) (by simp [hmask])]
      simp
    · rw [if_neg hj, Map.reinsertPositionInOrder_none, Nat.min_eq_right (by omega),
        Nat.min_eq_right (by omega)]

/-- `Grow` doubles the table and keeps the names a single run from their desired slot. -/
theorem grow_floodMap {k : Nat} (hk : k + 1 ≤ 15) (hn : 0 < n) (hnk : n < 2 ^ k) :
    (floodMap (2 ^ k) n danger value).grow (2 ^ k * 2) =
      (floodMap (2 ^ (k + 1)) n danger value, .ok ()) := by
  have hcap : 2 ^ k * 2 ≤ kMaxSize := by
    rw [← Nat.pow_succ]
    exact Nat.pow_le_pow_right (by decide) hk
  rw [Map.grow_of_le hcap, firstIdeal_floodMap (by omega) hn, floodMap_positions,
    floodSlots_rotate (Nat.two_pow_pos k),
    foldl_reinsert_flood (by omega) rfl rfl, Nat.min_eq_right hnk.le, Nat.pow_succ]
  rfl

/-- A `Map` built with the flood's fields is a `floodMap`. -/
@[simp]
theorem floodMap_with_danger (danger' : Danger) :
    { floodMap L n danger value with danger := danger' } = floodMap L n danger' value := rfl

end FloodMap

/-! ## The sizes the run goes through -/

/-- What `ReserveOne` does to the size and the state of a table holding the first `n` names,
unless it is yellow with a load under `0.2`: yellow grows and goes green, a full table grows
(the first time to `kOnStackPositionsCount` slots), any other is left alone. -/
def floodReserve (L n : Nat) (danger : Danger) : Nat × Danger :=
  if danger.isYellow then (L * 2, danger.toGreen)
  else if n = usableCapacity L then (if n = 0 then kOnStackPositionsCount else L * 2, danger)
  else (L, danger)

/-- The size and state after the `n`-th name: `ReserveOne`, then the name `n` slots from its
desired slot, which turns the state yellow from `kForwardShiftThreshold` on. -/
def floodStep (n : Nat) (s : Nat × Danger) : Nat × Danger :=
  let r := floodReserve s.1 n s.2
  (r.1, if kForwardShiftThreshold ≤ n then r.2.toYellow else r.2)

/-- The size and state of the table after the first `n` names. -/
def floodShape : Nat → Nat × Danger
  | 0 => (0, Danger.default)
  | n + 1 => floodStep n (floodShape n)

set_option maxRecDepth 4096 in
/-- Before each of the first 131 names: the state is not red, a yellow state has a load of at
least `0.2`, the table is empty or a power of two with room, and so is the table `ReserveOne`
leaves. -/
theorem floodShape_ready : ∀ n < 131,
    (floodShape n).2.isRed = false ∧
      ((floodShape n).2.isYellow = true → loadFactorAtLeastThreshold n (floodShape n).1 = true) ∧
      (((floodShape n).1 = 0 ∧ n = 0 ∧ (floodShape n).2.isYellow = false) ∨
        ∃ k < 10, (floodShape n).1 = 2 ^ k ∧ 0 < n ∧ n < (floodShape n).1) ∧
      ∃ k < 11, (floodReserve (floodShape n).1 n (floodShape n).2).1 = 2 ^ k ∧
        n < (floodReserve (floodShape n).1 n (floodShape n).2).1 := by
  decide

set_option maxRecDepth 4096 in
/-- After 131 names the table has 1024 slots and is yellow, with a load under `0.2`. -/
theorem floodShape_131 :
    floodShape 131 = (1024, ⟨.kYellow, 0, 0⟩) ∧ loadFactorAtLeastThreshold 131 1024 = false := by
  decide

section Run

variable (sipHash : UInt64 → UInt64 → Bytes → UInt64) (seed : UInt64 × UInt64)
variable {L n : Nat} {danger : Danger} {value : Bytes}

/-- `ReserveOne` on the flood's table follows `floodReserve`. -/
theorem reserveOne_floodMap
    (hload : danger.isYellow = true → loadFactorAtLeastThreshold n L = true)
    (hL : (L = 0 ∧ n = 0 ∧ danger.isYellow = false) ∨ ∃ k < 10, L = 2 ^ k ∧ 0 < n ∧ n < L) :
    Map.reserveOne sipHash seed (floodMap L n danger value) =
      (floodMap (floodReserve L n danger).1 n (floodReserve L n danger).2 value, .ok ()) := by
  rw [Map.reserveOne, Map.reserveOneAt, floodReserve]
  by_cases hy : danger.isYellow = true
  · -- yellow with a sane load: green, and `Grow`
    obtain ⟨k, hk, rfl, hn, hnL⟩ : ∃ k < 10, L = 2 ^ k ∧ 0 < n ∧ n < L := by
      rcases hL with ⟨-, -, hny⟩ | h
      · exact absurd hy (by rw [hny]; decide)
      · exact h
    rw [Map.reserveOneWith_of_grow (by simpa using hy) (by simpa using hload hy)]
    rw [floodMap_danger, floodMap_with_danger, floodMap_positions, floodSlots_length, if_pos hy,
      grow_floodMap (by omega) hn hnL, Nat.pow_succ]
  · have hy' : danger.isYellow = false := by simpa using hy
    rw [if_neg hy]
    by_cases hcap : n = usableCapacity L
    · rw [if_pos hcap]
      by_cases hzero : n = 0
      · -- the first insertion: `kOnStackPositionsCount` empty slots
        subst hzero
        rw [Map.reserveOneWith_of_empty (by simpa using hy') (by simp [Map.capacity, hcap])
          (by simp), if_pos rfl]
        simp [floodMap, floodSlots_zero]
      · -- a full table: `Grow`
        obtain ⟨k, hk, rfl, hn, hnL⟩ : ∃ k < 10, L = 2 ^ k ∧ 0 < n ∧ n < L := by
          rcases hL with ⟨-, h0, -⟩ | h
          · exact absurd h0 hzero
          · exact h
        rw [Map.reserveOneWith_of_full (by simpa using hy') (by simp [Map.capacity, hcap])
          (by simpa using hzero), if_neg hzero]
        simp only [floodMap_positions, floodSlots_length]
        rw [grow_floodMap (by omega) hn hnL, Nat.pow_succ]
    · rw [if_neg hcap, Map.reserveOneWith_of_ne_capacity (by simpa using hy')
        (by simpa [Map.capacity] using hcap)]

/-- `insert_or_assign` of the `n`-th name follows `floodStep`. -/
theorem insertOrAssign_floodMap (hn256 : n < 256) (hred : danger.isRed = false)
    (hload : danger.isYellow = true → loadFactorAtLeastThreshold n L = true)
    (hL : (L = 0 ∧ n = 0 ∧ danger.isYellow = false) ∨ ∃ k < 10, L = 2 ^ k ∧ 0 < n ∧ n < L)
    (hR : ∃ k < 11, (floodReserve L n danger).1 = 2 ^ k ∧ n < (floodReserve L n danger).1) :
    HeaderMap.apply sipHash seed (floodMap L n danger value) (.insertOrAssign (floodKey n) value) =
      floodMap (floodStep n (L, danger)).1 (n + 1) (floodStep n (L, danger)).2 value := by
  obtain ⟨k, hk, hpow, hnk⟩ := hR
  have hres : Map.reserveOne sipHash seed (floodMap L n danger value) = _ :=
    reserveOne_floodMap sipHash seed hload hL
  rw [hpow] at hres
  rw [HeaderMap.apply, HeaderMap.insertOrAssign,
    insertOrModify_floodMap sipHash seed (by omega) (hpow ▸ hnk) hn256
      (floodMap_hashKey sipHash hred n) hres .kReplace]
  simp only [floodStep, hpow]

/-- The first `n` names of the flood, each inserted with `insert_or_assign`. -/
def floodOps (value : Bytes) (n : Nat) : List Op :=
  (List.range n).map fun i => .insertOrAssign (floodKey i) value

/-- Up to 131 names, the map is the run of the flood in the table `floodShape` computes. -/
theorem run_floodOps (value : Bytes) {n : Nat} (hn : n ≤ 131) :
    HeaderMap.run sipHash seed (floodOps value n) =
      floodMap (floodShape n).1 n (floodShape n).2 value := by
  induction n with
  | zero => rfl
  | succ n ih =>
    obtain ⟨hred, hload, hL, hR⟩ := floodShape_ready n (by omega)
    rw [floodOps, List.range_succ, List.map_append, List.map_singleton, ← floodOps,
      HeaderMap.run_concat, ih (by omega),
      insertOrAssign_floodMap sipHash seed (by omega) hred hload hL hR]
    rfl

end Run

/-! ## The 132nd name -/

section Last

variable (sipHash : UInt64 → UInt64 → Bytes → UInt64) (seed : UInt64 × UInt64) (value : Bytes)

/-- No two of the first `n ≤ 256` names are equal up to case. -/
theorem floodEntries_pairwise {n : Nat} (hn : n ≤ 256) :
    ((List.range n).map fun i => (floodKey i, value)).Pairwise
      fun a b => strIcaseEqual a.1 b.1 = false := by
  rw [List.pairwise_map]
  refine List.Pairwise.imp_of_mem (fun {i j} hi hj hij => ?_) List.nodup_range
  rw [List.mem_range] at hi hj
  exact Bool.eq_false_iff.2 fun h => hij ((strIcaseEqual_floodKey (by omega) (by omega)).1 h)

/-- The 132nd name: `ReserveOne` finds the table yellow with a load under `0.2`, turns it red and
rebuilds it, and the name then gets a slot of its own with the hash computed before. -/
theorem run_floodOps_last :
    ∃ M, HeaderMap.run sipHash seed (floodOps value 132) = M ∧
      M.entries = (List.range 132).map (fun i => (floodKey i, value)) ∧
      M.danger = ⟨.kRed, seed.1, seed.2⟩ ∧ Map.Indexed M ∧
      (⟨131, floodHash, getHeaderIndexForInsertion (floodKey 131)⟩ : Pos) ∈
        M.positions.reduceOption := by
  have h131 : HeaderMap.run sipHash seed (floodOps value 131) =
      floodMap 1024 131 ⟨.kYellow, 0, 0⟩ value := by
    rw [run_floodOps sipHash seed value le_rfl, floodShape_131.1]
  -- `Rebuild` under the drawn seed keeps the 131 names
  obtain ⟨m', hrebuild, hentries', hidx', hdanger', hlen', hmask'⟩ :=
    Map.rebuildWith_fresh sipHash seed 0
      (m := { floodMap 1024 131 ⟨.kYellow, 0, 0⟩ value with
        danger := (floodMap 1024 131 ⟨.kYellow, 0, 0⟩ value).danger.toRed seed })
      rfl (by simp) (by simp [Map.capacity, usableCapacity])
      (floodEntries_pairwise value (by omega))
  have hres : Map.reserveOne sipHash seed (floodMap 1024 131 ⟨.kYellow, 0, 0⟩ value) =
      (m', .ok ()) := by
    rw [Map.reserveOne, Map.reserveOneAt,
      Map.reserveOneWith_of_rebuild rfl (by simpa using floodShape_131.2)]
    exact hrebuild
  -- the name goes into the rebuilt table, which has room
  obtain ⟨p, hp, hnone⟩ := hidx'.exists_empty (by rw [hentries', hlen']; simp)
  obtain ⟨idx, dist, M, hidxlt, hins, hout⟩ := Map.doInsertOrModifyWith_outcome hres
    (by rw [hmask', hlen']; simp) hp hnone (floodKey 131) floodHash value .kReplace
  have hfresh : ∀ e ∈ m'.entries, strIcaseEqual e.1 (floodKey 131) = false := by
    rw [hentries']
    intro e he
    obtain ⟨i, hi, rfl⟩ := List.mem_map.1 he
    rw [List.mem_range] at hi
    exact Bool.eq_false_iff.2 fun h => by
      have := (strIcaseEqual_floodKey (by omega) (by omega)).1 h
      omega
  obtain ⟨hentriesM, hperm⟩ := hout.fresh hidx' hfresh hidxlt hp hnone
  obtain ⟨-, -, hdangerM⟩ := hout.shape hidxlt hp hnone
  have hrun : HeaderMap.run sipHash seed (floodOps value 132) = M := by
    rw [floodOps, List.range_succ, List.map_append, List.map_singleton, ← floodOps,
      HeaderMap.run_concat, h131, HeaderMap.apply, HeaderMap.insertOrAssign, Map.insertOrModify,
      floodMap_hashKey sipHash rfl, hins]
  have hred : m'.danger = ⟨.kRed, seed.1, seed.2⟩ := hdanger'
  refine ⟨M, hrun, ?_, ?_, hout.indexed hidx' hidxlt hp hnone, ?_⟩
  · rw [hentriesM, hentries', List.range_succ, List.map_append, List.map_singleton]
    rfl
  · rcases hdangerM with hd | hd
    · rw [hd, hred]
    · rw [hd, hred, Map.toYellow_of_red rfl]
  · have hmem := hperm.mem_iff.2 List.mem_cons_self
    have hcount : m'.entries.length = 131 := by simp [hentries']
    rwa [hcount] at hmem

/-- Unless SipHash under the drawn seed gives the last name the hash it was stored under,
`DoFind` of the last name finds nothing: the only slot with its name has the old hash, and the
other slots hold other names and header indices that are never `0`. -/
theorem doFind_floodLast
    (hsip : maskHash (sipHash seed.1 seed.2 (floodKey 131)) ≠ floodHash) :
    (HeaderMap.run sipHash seed (floodOps value 132)).doFind (floodKey 131)
      ((HeaderMap.run sipHash seed (floodOps value 132)).hashKey sipHash (floodKey 131)) 0 =
      none := by
  obtain ⟨M, hrun, hentries, hdanger, hidx, hmem⟩ := run_floodOps_last sipHash seed value
  rw [hrun]
  refine Map.doFind_eq_none fun pos hpos ⟨hhash, hmatch⟩ => ?_
  rw [Map.hashKey_of_red sipHash hdanger] at hhash
  rcases hmatch with hzero | hname
  · -- a stored header index is never the `0` a name lookup passes
    rw [hidx.headerIndex pos hpos] at hzero
    exact getHeaderIndexForInsertion_ne_zero _ hzero.symm
  · -- the slot of the last name is the one that carries `floodHash`
    have hlt := hidx.lt pos hpos
    rw [hentries, List.length_map, List.length_range] at hlt
    rw [entryAt_of_entries_range hentries hlt, strIcaseEqual_floodKey (by omega) (by omega)] at hname
    have hpos' : pos = ⟨131, floodHash, getHeaderIndexForInsertion (floodKey 131)⟩ :=
      List.inj_on_of_nodup_map hidx.nodup hpos hmem hname
    rw [hpos'] at hhash
    exact hsip hhash.symm

/-- A run of `insert_or_assign`s that `find` disagrees with: after 131 names that share the
unsafe hash, the 132nd is not `contains`ed, while the map of the documentation has it, whenever
SipHash under the drawn seed gives it another masked hash than the unsafe hasher did. -/
theorem flood_hides_last_name
    (hsip : maskHash (sipHash seed.1 seed.2 (floodKey 131)) ≠
      maskHash (unsafeConstexprHasher (floodKey 131))) :
    HeaderMap.contains sipHash (HeaderMap.run sipHash seed (floodOps value 132)) (floodKey 131) =
        false ∧
      (Spec.run (floodOps value 132)).find (floodKey 131) = some value := by
  rw [maskHash_floodKey] at hsip
  refine ⟨?_, ?_⟩
  · rw [HeaderMap.contains, Map.find, doFind_floodLast sipHash seed value hsip]
    rfl
  · rw [floodOps, List.range_succ, List.map_append, List.map_singleton, ← floodOps,
      Spec.run_concat, Spec.apply, Spec.find_insertWith_self]

theorem flood_hides_last_name_at_zero :
    maskHash ((fun _ _ _ => (0 : UInt64)) (1 : UInt64) (1 : UInt64) (floodKey 131)) ≠
        maskHash (unsafeConstexprHasher (floodKey 131)) ∧
      HeaderMap.contains (fun _ _ _ => 0)
          (HeaderMap.run (fun _ _ _ => 0) (1, 1) (floodOps [118] 132)) (floodKey 131) = false ∧
      (Spec.run (floodOps [118] 132)).find (floodKey 131) = some [118] :=
  have hsip : maskHash ((fun _ _ _ => (0 : UInt64)) (1 : UInt64) (1 : UInt64) (floodKey 131)) ≠
      maskHash (unsafeConstexprHasher (floodKey 131)) := by
    decide
  ⟨hsip, flood_hides_last_name (fun _ _ _ => 0) (1, 1) [118] hsip⟩

/-- A reachable state whose slot of the last name stores a hash that `HashKey` does not give
that name in the current (red) state. -/
theorem flood_stale_hash
    (hsip : maskHash (sipHash seed.1 seed.2 (floodKey 131)) ≠
      maskHash (unsafeConstexprHasher (floodKey 131))) :
    let M : Map := HeaderMap.run sipHash seed (floodOps value 132)
    ∃ pos ∈ M.positions.reduceOption, pos.hash ≠ M.hashKey sipHash (M.entryAt pos.entriesIndex).1 := by
  intro M
  rw [maskHash_floodKey] at hsip
  obtain ⟨M', hrun, hentries, hdanger, -, hmem⟩ := run_floodOps_last sipHash seed value
  have hM : M = M' := hrun
  rw [hM]
  refine ⟨_, hmem, ?_⟩
  rw [entryAt_of_entries_range hentries (by omega : 131 < 132),
    Map.hashKey_of_red sipHash hdanger]
  exact hsip.symm

theorem flood_stale_hash_at_zero :
    maskHash ((fun _ _ _ => (0 : UInt64)) (1 : UInt64) (1 : UInt64) (floodKey 131)) ≠
        maskHash (unsafeConstexprHasher (floodKey 131)) ∧
      let M : Map := HeaderMap.run (fun _ _ _ => 0) (1, 1) (floodOps [118] 132)
      ∃ pos ∈ M.positions.reduceOption,
        pos.hash ≠ M.hashKey (fun _ _ _ => 0) (M.entryAt pos.entriesIndex).1 :=
  have hsip : maskHash ((fun _ _ _ => (0 : UInt64)) (1 : UInt64) (1 : UInt64) (floodKey 131)) ≠
      maskHash (unsafeConstexprHasher (floodKey 131)) := by
    decide
  ⟨hsip, flood_stale_hash (fun _ _ _ => 0) (1, 1) [118] hsip⟩

/-- The erase-while-iterating loop over that state, erasing the last name: its first `erase`
does not find the name and returns `end()`, so the loop stops with the name still there. -/
theorem flood_iterate_and_erase
    (hsip : maskHash (sipHash seed.1 seed.2 (floodKey 131)) ≠
      maskHash (unsafeConstexprHasher (floodKey 131))) (fuel : Nat) :
    let M : Map := HeaderMap.run sipHash seed (floodOps value 132)
    HeaderMap.iterateAndErase sipHash (fun e => strIcaseEqual e.1 (floodKey 131)) fuel M M.size =
        M ∧
      (floodKey 131, value) ∈ M.entries := by
  intro M
  rw [maskHash_floodKey] at hsip
  have hnone := doFind_floodLast sipHash seed value hsip
  obtain ⟨M', hrun, hentries, -, -, -⟩ := run_floodOps_last sipHash seed value
  have hM : M = M' := hrun
  rw [hrun] at hnone
  rw [hM]
  have hlast : M'.entryAt (132 - 1) = (floodKey 131, value) :=
    entryAt_of_entries_range hentries (by omega)
  refine ⟨?_, ?_⟩
  · have hsize : M'.size = 132 := by simp [Map.size, hentries]
    rw [hsize]
    cases fuel with
    | zero => rfl
    | succ fuel =>
      have herase : HeaderMap.eraseIterator sipHash M' 132 = (M', 0) := by
        rw [HeaderMap.eraseIterator, hlast, Map.erase]
        exact Map.doErase_of_doFind_eq_none sipHash hnone
      rw [HeaderMap.iterateAndErase_of_pos sipHash (by omega)
          (by rw [hlast]; exact strIcaseEqual_refl _),
        herase, HeaderMap.iterateAndErase_end]
  · rw [hentries]
    exact List.mem_map.2 ⟨131, List.mem_range.2 (by omega), rfl⟩

theorem flood_iterate_and_erase_at_zero :
    maskHash ((fun _ _ _ => (0 : UInt64)) (1 : UInt64) (1 : UInt64) (floodKey 131)) ≠
        maskHash (unsafeConstexprHasher (floodKey 131)) ∧
      let M : Map := HeaderMap.run (fun _ _ _ => 0) (1, 1) (floodOps [118] 132)
      HeaderMap.iterateAndErase (fun _ _ _ => 0) (fun e => strIcaseEqual e.1 (floodKey 131)) 1
          M M.size = M ∧
        (floodKey 131, [118]) ∈ M.entries :=
  have hsip : maskHash ((fun _ _ _ => (0 : UInt64)) (1 : UInt64) (1 : UInt64) (floodKey 131)) ≠
      maskHash (unsafeConstexprHasher (floodKey 131)) := by
    decide
  ⟨hsip, flood_iterate_and_erase (fun _ _ _ => 0) (1, 1) [118] hsip 1⟩

end Last

end Headers

end Http

end Userver
