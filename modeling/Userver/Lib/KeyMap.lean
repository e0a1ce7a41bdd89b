import Mathlib.Data.List.Basic

/-!
# Finite maps as lists

Two list encodings of the maps a program keeps.  A map whose order is never observed, and which
is only looked up by key, is an association list (`KeyMap`).  A map keyed by small natural
numbers whose entries are visited in order of key is a list indexed by position (`PosMap`), in
which a position without an entry holds a default value that the visit skips.

`std::map::operator[]` followed by an update of the entry is `alterM` on either encoding: the
entry at the key, or the default one when there is none, goes through an update that may fail,
and its result is written back.
-/

namespace KeyMap

variable {κ ν : Type} [DecidableEq κ]

/-- The value at a key. -/
def find? (k : κ) : List (κ × ν) → Option ν
  | [] => none
  | (k', v) :: l => if k' = k then some v else find? k l

/-- Set the value at a key: in place when the key is present, at the end when it is not. -/
def insert (k : κ) (v : ν) : List (κ × ν) → List (κ × ν)
  | [] => [(k, v)]
  | (k', v') :: l => if k' = k then (k, v) :: l else (k', v') :: insert k v l

/-- `operator[]` and an update that may fail: the value at `k`, or `d` when there is none, goes
through `f` and is written back. -/
def alterM {m : Type → Type} [Monad m] (k : κ) (d : ν) (f : ν → m ν) (l : List (κ × ν)) :
    m (List (κ × ν)) :=
  (fun v => insert k v l) <$> f ((find? k l).getD d)

@[simp] theorem find?_nil (k : κ) : find? k ([] : List (κ × ν)) = none := rfl

@[simp] theorem find?_insert (j k : κ) (v : ν) (l : List (κ × ν)) :
    find? j (insert k v l) = if k = j then some v else find? j l := by
  induction l with
  | nil => rfl
  | cons e l ih =>
    obtain ⟨k', v'⟩ := e
    by_cases hk : k' = k
    · subst hk
      by_cases hj : k' = j <;> simp [insert, find?, hj]
    · by_cases hj : k' = j
      · subst hj
        simp [insert, find?, hk, Ne.symm hk]
      · simp [insert, find?, hk, hj, ih]

end KeyMap

namespace PosMap

variable {ν : Type}

/-- Set the entry at position `i`, padding with `d` up to it. -/
def set (d : ν) : List ν → Nat → ν → List ν
  | [], 0, v => [v]
  | [], i + 1, v => d :: set d [] i v
  | _ :: l, 0, v => v :: l
  | a :: l, i + 1, v => a :: set d l i v

/-- `operator[]` and an update that may fail, at position `i`. -/
def alterM {m : Type → Type} [Monad m] (d : ν) (f : ν → m ν) (l : List ν) (i : Nat) :
    m (List ν) :=
  (fun v => set d l i v) <$> f (l.getD i d)

@[simp] theorem getD_set (d : ν) (l : List ν) (i j : Nat) (v : ν) :
    (set d l i v).getD j d = if j = i then v else l.getD j d := by
  induction l generalizing i j with
  | nil =>
    induction i generalizing j with
    | zero => cases j <;> simp [set]
    | succ i ih =>
      cases j with
      | zero => simp [set]
      | succ j => simpa [set] using ih j
  | cons a l ih =>
    cases i <;> cases j
    case succ.succ i j => simpa [set] using ih i j
    all_goals simp [set]

end PosMap
