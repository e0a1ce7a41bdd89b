import Userver.Http.HeaderMap.Slots

/-!
# `HeaderMap`: the public interface over `header_map::Map`

`HeaderMap` (`header_map.cpp`, `header_map.hpp`) owns a `header_map::Map` and forwards to it:
`find`, `size`, `clear`, `erase(key)` and `operator==` are the `Map`'s own.  What it adds is
modelled here: `operator[]` inserts an empty value unless the name is present, `Emplace` (behind
`emplace`, `try_emplace` and `insert`) is `operator[]` followed by an assignment when the value
found is empty, `insert_or_assign` and `InsertOrAppend` pick the occupied action, `erase(it)`
erases by the name the iterator points at, and `contains`, `count` and `at` read `find`.

Iterators are reverse iterators over the entries, modelled by their base index: `begin()` is the
number of entries, `end()` is `0`, `*it` is the entry at `it - 1` and `++it` is `it - 1`.

`Spec` is the map the documentation describes: names compared up to ASCII case, one value per
name, in a structure that carries that invariant.  `Op` lists the modifying operations, and
`HeaderMap.apply` and `Spec.apply` give their effect on the two.

The first insertion into an empty map and a second one of the same name are computed
(`insertOrModify_empty`, `insertOrModify_singleton`): on the map `{key: ""}` that `headers[key]`
builds, `emplace` assigns the value it was told to leave alone (`emplace_assigns_empty_value`),
and `operator==` compares values up to case (`beq_ignores_value_case`).
-/

namespace Userver

namespace Http

namespace Headers

namespace HeaderMap

section Operations

variable (sipHash : UInt64 → UInt64 → Bytes → UInt64) (seed : UInt64 × UInt64)

/-- `operator[]`: the index of the entry of `key`, inserted with an empty value if absent. -/
def operatorIndex (m : Map) (key : Bytes) : Throwing Nat :=
  m.insertOrModify sipHash seed key [] .kNoop

/-- `operator[](const PredefinedHeader&)`. -/
def operatorIndexHeader (m : Map) (header : PredefinedHeader) : Throwing Nat :=
  m.insertOrModifyHeader sipHash seed header [] .kNoop

/-- `Emplace`, behind `emplace`, `try_emplace` and `insert`: `operator[]`, then the value
assigned if the one found is empty. -/
def emplace (m : Map) (key value : Bytes) : Throwing Unit :=
  match operatorIndex sipHash seed m key with
  | (m, .error e) => (m, .error e)
  | (m, .ok idx) =>
    if (m.entryAt idx).2.isEmpty then
      ({ m with entries := m.entries.modify idx fun e => (e.1, value) }, .ok ())
    else (m, .ok ())

/-- `Emplace` once `operator[]` has returned. -/
theorem emplace_of_ok {m m' : Map} {key : Bytes} {idx : Nat}
    (h : operatorIndex sipHash seed m key = (m', .ok idx)) (value : Bytes) :
    emplace sipHash seed m key value =
      if (m'.entryAt idx).2.isEmpty then
        ({ m' with entries := m'.entries.modify idx fun e => (e.1, value) }, .ok ())
      else (m', .ok ()) := by
  simp only [emplace, h]

/-- `insert_or_assign`. -/
def insertOrAssign (m : Map) (key value : Bytes) : Throwing Unit :=
  let r := m.insertOrModify sipHash seed key value .kReplace
  (r.1, r.2.map fun _ => ())

/-- `InsertOrAppend`. -/
def insertOrAppend (m : Map) (key value : Bytes) : Throwing Unit :=
  let r := m.insertOrModify sipHash seed key value .kAppend
  (r.1, r.2.map fun _ => ())

/-- `erase(Iterator)`: erases by the name the iterator points at. -/
def eraseIterator (m : Map) (it : Nat) : Map × Nat :=
  m.erase sipHash (m.entryAt (it - 1)).1

/-- `contains`. -/
def contains (m : Map) (key : Bytes) : Bool := (m.find sipHash key).isSome

/-- `count`. -/
def count (m : Map) (key : Bytes) : Nat := if contains sipHash m key then 1 else 0

/-- `at`: the value, or `std::out_of_range` carrying the name. -/
def at' (m : Map) (key : Bytes) : Except Bytes Bytes :=
  match m.find sipHash key with
  | some idx => .ok (m.entryAt idx).2
  | none => .error key

/-- The loop `for (it = m.begin(); it != m.end();) { if (P(*it)) it = m.erase(it); else ++it; }`,
for at most `fuel` iterations. -/
def iterateAndErase (P : Bytes × Bytes → Bool) : Nat → Map → Nat → Map
  | 0, m, _ => m
  | fuel + 1, m, it =>
    if it = 0 then m
    else if P (m.entryAt (it - 1)) then
      let r := eraseIterator sipHash m it
      iterateAndErase P fuel r.1 r.2
    else iterateAndErase P fuel m (it - 1)

/-- At `end()` the loop is over. -/
@[simp]
theorem iterateAndErase_end (P : Bytes × Bytes → Bool) (fuel : Nat) (m : Map) :
    iterateAndErase sipHash P fuel m 0 = m := by
  cases fuel <;> rfl

/-- An entry with `P` is erased, and the loop goes on from the iterator `erase` returns. -/
theorem iterateAndErase_of_pos {P : Bytes × Bytes → Bool} {fuel : Nat} {m : Map} {it : Nat}
    (hit : it ≠ 0) (hP : P (m.entryAt (it - 1)) = true) :
    iterateAndErase sipHash P (fuel + 1) m it =
      iterateAndErase sipHash P fuel (eraseIterator sipHash m it).1
        (eraseIterator sipHash m it).2 := by
  simp only [iterateAndErase, if_neg hit, hP, if_true]

end Operations

end HeaderMap

/-! ## The documented map -/

/-- The header map the documentation describes: at most one entry per name up to ASCII case. -/
structure Spec where
  entries : List (Bytes × Bytes)
  nodup : (entries.map fun e => e.1.map toLowerAscii).Nodup

namespace Spec

/-- The empty map. -/
def empty : Spec := ⟨[], List.nodup_nil⟩

/-- The value of a name. -/
def find (s : Spec) (key : Bytes) : Option Bytes :=
  (s.entries.find? fun e => strIcaseEqual e.1 key).map (·.2)

/-- The number of names. -/
def size (s : Spec) : Nat := s.entries.length

theorem not_mem_of_find_eq_none {s : Spec} {key : Bytes} (h : s.find key = none) :
    key.map toLowerAscii ∉ s.entries.map fun e => e.1.map toLowerAscii := by
  intro hmem
  obtain ⟨e, he, heq⟩ := List.mem_map.1 hmem
  have hnone : s.entries.find? (fun e => strIcaseEqual e.1 key) = none := by
    simpa [find] using h
  have := List.find?_eq_none.1 hnone e he
  rw [strIcaseEqual_iff.2 heq] at this
  exact this rfl

/-- The name set to `update none` if absent, its value `old` to `update (some old)` if present. -/
def insertWith (s : Spec) (key : Bytes) (update : Option Bytes → Bytes) : Spec :=
  match h : s.find key with
  | none => ⟨s.entries ++ [(key, update none)], by
      simp only [List.map_append, List.map_cons, List.map_nil]
      rw [List.nodup_append]
      refine ⟨s.nodup, List.nodup_singleton _, ?_⟩
      intro a ha b hb hab
      rw [List.mem_singleton] at hb
      rw [hab, hb] at ha
      exact not_mem_of_find_eq_none h ha⟩
  | some _ => ⟨s.entries.map fun e => if strIcaseEqual e.1 key then (e.1, update (some e.2)) else e,
      by
        have hkeys : ((s.entries.map fun e =>
            if strIcaseEqual e.1 key then (e.1, update (some e.2)) else e).map
              fun e => e.1.map toLowerAscii) = s.entries.map fun e => e.1.map toLowerAscii := by
          rw [List.map_map]
          congr 1
          funext e
          simp only [Function.comp]
          split <;> rfl
        rw [hkeys]
        exact s.nodup⟩

/-- The name removed. -/
def erase (s : Spec) (key : Bytes) : Spec :=
  ⟨s.entries.filter fun e => !strIcaseEqual e.1 key,
    s.nodup.sublist (List.filter_sublist.map _)⟩

end Spec

/-- The operations that modify a header map. -/
inductive Op where
  /-- `operator[]`. -/
  | index (key : Bytes)
  /-- `emplace`, `try_emplace` and `insert`. -/
  | emplace (key value : Bytes)
  | insertOrAssign (key value : Bytes)
  | insertOrAppend (key value : Bytes)
  | erase (key : Bytes)
  | clear
  deriving DecidableEq, Repr

namespace Spec

/-- What an operation does by the documentation. -/
def apply (s : Spec) : Op → Spec
  | .index key => s.insertWith key fun old => old.getD []
  | .emplace key value => s.insertWith key fun old => old.getD value
  | .insertOrAssign key value => s.insertWith key fun _ => value
  | .insertOrAppend key value => s.insertWith key fun old => old.elim value (· ++ [44] ++ value)
  | .erase key => s.erase key
  | .clear => empty

/-- A sequence of operations from the empty map. -/
def run (ops : List Op) : Spec := ops.foldl apply empty

theorem run_concat (ops : List Op) (op : Op) : run (ops ++ [op]) = (run ops).apply op := by
  rw [run, List.foldl_append, List.foldl_cons, List.foldl_nil, run]

/-- After an insertion the name has the value the update gave it. -/
theorem find_insertWith_self (s : Spec) (key : Bytes) (update : Option Bytes → Bytes) :
    (s.insertWith key update).find key = some (update (s.find key)) := by
  unfold insertWith
  split
  · rename_i h
    have hnone : s.entries.find? (fun e => strIcaseEqual e.1 key) = none := by
      simpa [find] using h
    simp [find, List.find?_append, hnone, strIcaseEqual_refl]
  · rename_i old h
    -- the first entry of the name is the one the update rewrote
    obtain ⟨e, he, hold⟩ : ∃ e, s.entries.find? (fun e => strIcaseEqual e.1 key) = some e ∧
        e.2 = old := by
      simpa [find] using h
    have hkey : strIcaseEqual e.1 key = true := List.find?_some (p := fun e : Bytes × Bytes => strIcaseEqual e.1 key) he
    have hpred : ((fun e : Bytes × Bytes => strIcaseEqual e.1 key) ∘ fun e =>
        if strIcaseEqual e.1 key then (e.1, update (some e.2)) else e) =
        fun e => strIcaseEqual e.1 key := by
      funext e
      simp only [Function.comp]
      split <;> rfl
    simp only [find, List.find?_map, hpred, he, Option.map_some, hkey, if_true, hold]

end Spec

namespace HeaderMap

variable (sipHash : UInt64 → UInt64 → Bytes → UInt64) (seed : UInt64 × UInt64)

/-- What an operation does to the map; a call that throws leaves the state it threw in. -/
def apply (m : Map) : Op → Map
  | .index key => (operatorIndex sipHash seed m key).1
  | .emplace key value => (emplace sipHash seed m key value).1
  | .insertOrAssign key value => (insertOrAssign sipHash seed m key value).1
  | .insertOrAppend key value => (insertOrAppend sipHash seed m key value).1
  | .erase key => (m.erase sipHash key).1
  | .clear => m.clear

/-- A sequence of operations from the empty map. -/
def run (ops : List Op) : Map := ops.foldl (apply sipHash seed) Map.empty

theorem run_concat (ops : List Op) (op : Op) :
    run sipHash seed (ops ++ [op]) = apply sipHash seed (run sipHash seed ops) op := by
  rw [run, List.foldl_append, List.foldl_cons, List.foldl_nil, run]

end HeaderMap

/-! ## A map of one entry -/

namespace Map

variable (sipHash : UInt64 → UInt64 → Bytes → UInt64) (seed : UInt64 × UInt64)

/-- The map `{key: value}` that one insertion into an empty map builds. -/
def singleton (key value : Bytes) : Map :=
  let hash := maskHash (unsafeConstexprHasher key)
  ⟨kOnStackPositionsCount - 1,
    (List.replicate kOnStackPositionsCount none).set
      (desiredPos (kOnStackPositionsCount - 1) hash) (some ⟨0, hash, getHeaderIndexForInsertion key⟩),
    [(key, value)], Danger.default⟩

@[simp]
theorem singleton_entries (key value : Bytes) : (singleton key value).entries = [(key, value)] :=
  rfl

@[simp]
theorem singleton_size (key value : Bytes) : (singleton key value).size = 1 := rfl

@[simp]
theorem singleton_entryAt_zero (key value : Bytes) : (singleton key value).entryAt 0 = (key, value) :=
  rfl

theorem singleton_length (key value : Bytes) :
    (singleton key value).positions.length = kOnStackPositionsCount := by
  simp [singleton]

theorem desiredPos_lt_singleton_length (key value : Bytes) (hash : Nat) :
    desiredPos (singleton key value).mask hash < (singleton key value).positions.length := by
  rw [singleton_length]
  exact Nat.lt_succ_of_le (desiredPos_le _ _)

/-- The slot of the one entry. -/
theorem singleton_getD (key value : Bytes) :
    (singleton key value).positions.getD
        (desiredPos (singleton key value).mask (maskHash (unsafeConstexprHasher key))) none =
      some ⟨0, maskHash (unsafeConstexprHasher key), getHeaderIndexForInsertion key⟩ := by
  have hd : desiredPos (kOnStackPositionsCount - 1) (maskHash (unsafeConstexprHasher key)) <
      kOnStackPositionsCount := Nat.lt_succ_of_le (desiredPos_le _ _)
  simp [singleton, hd]

/-- The first insertion into an empty map makes room for `kOnStackPositionsCount` slots and
fills the desired one. -/
theorem insertOrModify_empty (key value : Bytes) (action : InsertOrModifyOccupiedAction) :
    empty.insertOrModify sipHash seed key value action = (singleton key value, .ok 0) := by
  let m₀ : Map := { empty with
    mask := kOnStackPositionsCount - 1
    positions := List.replicate kOnStackPositionsCount none }
  have hreserve : reserveOne sipHash seed empty = (m₀, .ok ()) := rfl
  have hhash : empty.hashKey sipHash key = maskHash (unsafeConstexprHasher key) :=
    hashKey_of_not_isRed sipHash rfl key
  have hd : desiredPos m₀.mask (maskHash (unsafeConstexprHasher key)) < kOnStackPositionsCount :=
    Nat.lt_succ_of_le (desiredPos_le _ _)
  have hempty : m₀.positions.getD (desiredPos m₀.mask (maskHash (unsafeConstexprHasher key)))
      none = none := by
    simp [m₀]
  have hvacant : m₀.performVacant (maskHash (unsafeConstexprHasher key)) 0
      (desiredPos m₀.mask (maskHash (unsafeConstexprHasher key))) key value = singleton key value := by
    simp [performVacant_eq, singleton, m₀, kForwardShiftThreshold, empty]
  have hstep : inserterStep (maskHash (unsafeConstexprHasher key)) key value action
      (desiredPos m₀.mask (maskHash (unsafeConstexprHasher key))) (m₀, 0) =
      (.kStop, (m₀.performVacant (maskHash (unsafeConstexprHasher key)) 0
        (desiredPos m₀.mask (maskHash (unsafeConstexprHasher key))) key value, 0)) :=
    inserterStep_of_none hempty
  have hloop := probeLoop_of_stop (m := m₀) hd hstep
  have hmask : m₀.mask = (singleton key value).mask := rfl
  rw [insertOrModify, hhash, doInsertOrModifyWith_of_stop hreserve hloop, hvacant, hmask,
    singleton_getD]
  simp only [Option.elim_some]

/-- A second insertion of the name, up to case, finds the entry and performs the occupied
action on it. -/
theorem insertOrModify_singleton {key key' : Bytes} (h : strIcaseEqual key key' = true)
    (value value' : Bytes) (action : InsertOrModifyOccupiedAction) :
    (singleton key value).insertOrModify sipHash seed key' value' action =
      ((singleton key value).performOccupied action 0 value', .ok 0) := by
  have hreserve : reserveOne sipHash seed (singleton key value) = (singleton key value, .ok ()) :=
    reserveOneAt_of_ne_capacity sipHash rfl
      (by simp [singleton, capacity, usableCapacity, kOnStackPositionsCount]) 1
  have hhash : (singleton key value).hashKey sipHash key' = maskHash (unsafeConstexprHasher key) := by
    rw [hashKey_of_not_isRed sipHash rfl, unsafeConstexprHasher_eq_of_strIcaseEqual h]
  have hd := desiredPos_lt_singleton_length key value (maskHash (unsafeConstexprHasher key))
  have hstep : inserterStep (maskHash (unsafeConstexprHasher key)) key' value' action
      (desiredPos (singleton key value).mask (maskHash (unsafeConstexprHasher key)))
      (singleton key value, 0) =
      (.kStop, ((singleton key value).performOccupied action 0 value', 0)) :=
    inserterStep_of_match (singleton_getD key value) (by simp)
      ⟨rfl, by simpa [entryAt, singleton] using h⟩
  rw [insertOrModify, hhash, doInsertOrModifyWith_of_stop hreserve (probeLoop_of_stop hd hstep),
    performOccupied_positions, singleton_getD]
  simp only [Option.elim_some]

/-- `operator==` holds when the sizes agree and every entry's name is found in the other map
with a value equal up to case. -/
theorem beq_eq_true_iff {m other : Map} :
    m.beq sipHash other = true ↔ m.size = other.size ∧
      ∀ e ∈ m.entries, ∃ i, other.find sipHash e.1 = some i ∧
        areValuesICaseEqual (other.entryAt i).2 e.2 = true := by
  simp only [beq, Bool.and_eq_true, beq_iff_eq, List.all_eq_true]
  refine and_congr Iff.rfl (forall₂_congr fun e _ => ?_)
  cases other.find sipHash e.1 with
  | none => simp
  | some i => simp

/-- `Find` of the name, up to case, in the map of one entry. -/
theorem find_singleton {key key' : Bytes} (h : strIcaseEqual key key' = true) (value : Bytes) :
    (singleton key value).find sipHash key' = some 0 := by
  have hhash : (singleton key value).hashKey sipHash key' = maskHash (unsafeConstexprHasher key) := by
    rw [hashKey_of_not_isRed sipHash rfl, unsafeConstexprHasher_eq_of_strIcaseEqual h]
  have hd := desiredPos_lt_singleton_length key value (maskHash (unsafeConstexprHasher key))
  have hstep : (singleton key value).findStep key' (maskHash (unsafeConstexprHasher key)) 0
      (desiredPos (singleton key value).mask (maskHash (unsafeConstexprHasher key))) (0, none) =
      (.kStop, (0, some (desiredPos (singleton key value).mask
        (maskHash (unsafeConstexprHasher key)), 0))) :=
    findStep_of_match (singleton_getD key value) (by simp)
      ⟨rfl, .inr (by simpa [entryAt, singleton] using h)⟩
  rw [find, hhash, doFind_of_length_pos (Nat.zero_lt_of_lt hd), probeLoop_of_stop hd hstep]
  simp only [Option.map_some]

end Map

namespace HeaderMap

variable (sipHash : UInt64 → UInt64 → Bytes → UInt64) (seed : UInt64 × UInt64)

/-- `headers[key]` on an empty map builds `{key: ""}`; `emplace(key, value)` on it, documented to
do nothing when the key is present, assigns `value`. -/
theorem emplace_assigns_empty_value (key value : Bytes) :
    let m : Map := (operatorIndex sipHash seed Map.empty key).1
    m.entries = [(key, [])] ∧ m.find sipHash key = some 0 ∧
      (emplace sipHash seed m key value).1.entries = [(key, value)] := by
  have hm : operatorIndex sipHash seed Map.empty key = (Map.singleton key [], .ok 0) :=
    Map.insertOrModify_empty sipHash seed key [] .kNoop
  have hagain : operatorIndex sipHash seed (Map.singleton key []) key =
      (Map.singleton key [], .ok 0) :=
    Map.insertOrModify_singleton sipHash seed (strIcaseEqual_refl key) [] [] .kNoop
  refine ⟨by rw [hm]; rfl, by rw [hm]; exact Map.find_singleton sipHash (strIcaseEqual_refl key) [], ?_⟩
  rw [hm, emplace_of_ok sipHash seed hagain, Map.singleton_entryAt_zero]
  rfl

/-- `operator==` compares values up to case: two maps of one name whose values differ only in
case are equal. -/
theorem beq_ignores_value_case (key : Bytes) {value value' : Bytes}
    (h : strIcaseEqual value value' = true) :
    let a : Map := (insertOrAssign sipHash seed Map.empty key value).1
    let b : Map := (insertOrAssign sipHash seed Map.empty key value').1
    a.beq sipHash b = true ∧ a.entries = [(key, value)] ∧ b.entries = [(key, value')] := by
  have ha : (insertOrAssign sipHash seed Map.empty key value).1 = Map.singleton key value := by
    simp only [insertOrAssign, Map.insertOrModify_empty]
  have hb : (insertOrAssign sipHash seed Map.empty key value').1 = Map.singleton key value' := by
    simp only [insertOrAssign, Map.insertOrModify_empty]
  refine ⟨?_, by rw [ha, Map.singleton_entries], by rw [hb, Map.singleton_entries]⟩
  rw [ha, hb, Map.beq_eq_true_iff]
  refine ⟨rfl, fun e he => ?_⟩
  rw [Map.singleton_entries, List.mem_singleton] at he
  subst he
  refine ⟨0, Map.find_singleton sipHash (strIcaseEqual_refl key) value', ?_⟩
  rw [Map.singleton_entryAt_zero, Map.areValuesICaseEqual, strIcaseEqual_comm]
  exact h

/-- `{"a": "x"} == {"a": "X"}`. -/
theorem beq_ignores_value_case_x :
    strIcaseEqual [120] [88] = true ∧
      let a : Map := (insertOrAssign (fun _ _ _ => 0) (1, 1) Map.empty [97] [120]).1
      let b : Map := (insertOrAssign (fun _ _ _ => 0) (1, 1) Map.empty [97] [88]).1
      a.beq (fun _ _ _ => 0) b = true ∧ a.entries = [([97], [120])] ∧ b.entries = [([97], [88])] :=
  ⟨by decide, beq_ignores_value_case (fun _ _ _ => 0) (1, 1) [97] (by decide)⟩

end HeaderMap

end Headers

end Http

end Userver
