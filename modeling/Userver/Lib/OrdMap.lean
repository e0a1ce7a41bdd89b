import Mathlib.Data.List.Sort

/-!
# Ordered sets and maps as sorted lists

`std::set` and `std::map` of a program that iterates them, so that their order is observed: the
elements, or the entries, in increasing order of key.  `insertBy` is `std::set::insert` for a set
ordered by a key (a new element goes to its place, one with the key of an element already there
is dropped), and `alter` is `std::map::operator[]` followed by an update of the entry.

* `find?_alter` says what `alter` does to the value at every key, and `keys_nodup_alter` that it
  keeps the keys distinct;
* `find?_of_mem` and `mem_of_find?` go between an entry and the value at its key.
-/

namespace OrdMap

variable {α κ ν : Type} [LinearOrder κ]

/-! ### Sets -/

/-- `std::set::insert` for a set ordered by `key`. -/
def insertBy (key : α → κ) (x : α) (s : List α) : List α :=
  if s.any (fun y => key y = key x) then s else s.orderedInsert (fun a b => key a ≤ key b) x

/-- `std::set::insert`. -/
def setInsert (x : κ) (s : List κ) : List κ := insertBy id x s

/-! ### Maps -/

/-- The value at a key. -/
def find? (k : κ) (m : List (κ × ν)) : Option ν := (m.find? fun e => e.1 = k).map Prod.snd

/-- `operator[]` followed by an update: the value at `k`, or `d` when `k` is new, replaced by its
image under `f`; a new key goes to its place in order. -/
def alter (k : κ) (d : ν) (f : ν → ν) (m : List (κ × ν)) : List (κ × ν) :=
  match find? k m with
  | some _ => m.map fun e => if e.1 = k then (k, f e.2) else e
  | none => m.orderedInsert (fun a b => a.1 ≤ b.1) (k, f d)

@[simp] theorem find?_nil (k : κ) : find? k ([] : List (κ × ν)) = none := rfl

theorem find?_cons (k : κ) (e : κ × ν) (m : List (κ × ν)) :
    find? k (e :: m) = if e.1 = k then some e.2 else find? k m := by
  unfold find?
  rw [List.find?_cons]
  by_cases h : e.1 = k <;> simp [h]

theorem mem_of_find? {k : κ} {v : ν} {m : List (κ × ν)} (h : find? k m = some v) :
    (k, v) ∈ m := by
  induction m with
  | nil => simp at h
  | cons e m ih =>
    rw [find?_cons] at h
    split at h
    next hk =>
      cases h
      rw [← hk]
      exact List.mem_cons_self
    · exact List.mem_cons_of_mem _ (ih h)

theorem find?_of_mem {m : List (κ × ν)} (hnd : (m.map Prod.fst).Nodup) {e : κ × ν}
    (he : e ∈ m) : find? e.1 m = some e.2 := by
  induction m with
  | nil => simp at he
  | cons e' m ih =>
    rw [List.map_cons, List.nodup_cons] at hnd
    rw [find?_cons]
    rcases List.mem_cons.1 he with rfl | he
    · simp
    · have hne : e'.1 ≠ e.1 := fun heq => hnd.1 (heq ▸ List.mem_map_of_mem he)
      rw [if_neg hne]
      exact ih hnd.2 he

theorem find?_eq_none {k : κ} {m : List (κ × ν)} : find? k m = none ↔ k ∉ m.map Prod.fst := by
  simp only [find?, Option.map_eq_none_iff, List.find?_eq_none, decide_eq_true_eq, List.mem_map,
    not_exists, not_and]

/-- Inserting a new key changes the value at that key only. -/
theorem find?_orderedInsert {k : κ} {m : List (κ × ν)} (hk : find? k m = none) (j : κ)
    (v : ν) :
    find? j (m.orderedInsert (fun a b => a.1 ≤ b.1) (k, v)) =
      if j = k then some v else find? j m := by
  induction m with
  | nil => simp [find?_cons, eq_comm]
  | cons e m ih =>
    rw [find?_cons] at hk
    split at hk
    · cases hk
    next hek =>
    rw [List.orderedInsert_cons]
    split
    · rw [find?_cons]
      simp only [eq_comm]
    · rw [find?_cons, find?_cons, ih hk]
      by_cases hj : j = k
      · subst hj
        simp [hek]
      · simp only [hj, if_false]

theorem find?_alter (j k : κ) (d : ν) (f : ν → ν) (m : List (κ × ν)) :
    find? j (alter k d f m) = if j = k then some (f ((find? k m).getD d)) else find? j m := by
  unfold alter
  split
  next v hv =>
    -- an update in place keeps every key, so the same entry is found
    have hkeys : ∀ e : κ × ν, (if e.1 = k then (k, f e.2) else e).1 = e.1 := by
      intro e
      split <;> simp_all
    unfold find?
    rw [List.find?_map]
    have hpred : ((fun e : κ × ν => decide (e.1 = j)) ∘ fun e =>
        if e.1 = k then (k, f e.2) else e) = fun e => decide (e.1 = j) := by
      funext e
      simp only [Function.comp, hkeys]
    rw [hpred]
    cases hfind : m.find? (fun e => decide (e.1 = j)) with
    | none =>
      have hnone : find? j m = none := by simp [find?, hfind]
      have hjk : j ≠ k := by
        rintro rfl
        rw [hnone] at hv
        cases hv
      simp [hjk]
    | some e =>
      have hej : e.1 = j := by simpa using List.find?_some hfind
      have hval : find? j m = some e.2 := by simp [find?, hfind]
      by_cases hjk : j = k
      · subst hjk
        rw [hval] at hv
        cases hv
        simp [hej, hfind]
      · simp [hej, hjk]
  next hnone =>
    rw [find?_orderedInsert hnone, hnone]
    rfl

theorem keys_nodup_alter {m : List (κ × ν)} (hnd : (m.map Prod.fst).Nodup) (k : κ) (d : ν)
    (f : ν → ν) : ((alter k d f m).map Prod.fst).Nodup := by
  unfold alter
  split
  · rw [List.map_map]
    have hkeys : (Prod.fst ∘ fun e : κ × ν => if e.1 = k then (k, f e.2) else e) = Prod.fst := by
      funext e
      simp only [Function.comp]
      split <;> simp_all
    rwa [hkeys]
  next hnone =>
    have hperm := (List.perm_orderedInsert (fun a b : κ × ν => a.1 ≤ b.1) (k, f d) m).map
      Prod.fst
    rw [hperm.nodup_iff, List.map_cons, List.nodup_cons]
    exact ⟨find?_eq_none.1 hnone, hnd⟩

end OrdMap
