import Mathlib.Data.List.Basic

/-!
# Header maps by their meaning

`http::headers::HeaderMap` (`header_map.cpp`) is a map whose keys are header names compared
modulo ASCII case folding: 'A'..'Z' and 'a'..'z' are the same letter, every other character
is itself.  This module states what such a map is for: a list of entries, one for each name up
to folding, looked up by folded name.  `InsertOrAppend` sets the value of a new name and appends
`','` and the value to the value of a known one; `GetHeader` is the value, or "" for a name the
map does not have.

`getHeader_foldl_insertOrAppend`: a map filled by `InsertOrAppend` from a list of headers answers
`GetHeader(name)` with the values of the headers named `name` up to folding, joined by `','` in
the order they came (`valuesOf`).
-/

namespace Userver

namespace Http

/-- The name a header is compared by: its ASCII letters in lower case. -/
def foldCase (s : String) : String := String.ofList (s.toList.map Char.toLower)

/-- A header map: its entries, one for each header name up to `foldCase`. -/
structure HeaderMap where
  entries : List (String × String)
  deriving DecidableEq, Repr

namespace HeaderMap

/-- The empty map. -/
def empty : HeaderMap := ⟨[]⟩

/-- The value of the header whose name folds as `key` does. -/
def find? (m : HeaderMap) (key : String) : Option String :=
  (m.entries.find? fun e => foldCase e.1 = foldCase key).map Prod.snd

/-- `GetHeader`: the value, or "" when the map has no such header. -/
def getHeader (m : HeaderMap) (key : String) : String := (m.find? key).getD ""

/-- `InsertOrAppend`: a new header, or `','` and the value appended to the value present. -/
def insertOrAppend (m : HeaderMap) (key value : String) : HeaderMap :=
  match m.find? key with
  | none => ⟨m.entries ++ [(key, value)]⟩
  | some old =>
    ⟨m.entries.map fun e => if foldCase e.1 = foldCase key then (e.1, old ++ "," ++ value) else e⟩

/-- The values of the headers of a list whose names fold as `key` does, in their order. -/
def valuesOf (fields : List (String × String)) (key : String) : List String :=
  (fields.filter fun f => foldCase f.1 = foldCase key).map Prod.snd

/-- A list of headers put in a map one after another by `InsertOrAppend`. -/
def ofFields (m : HeaderMap) (fields : List (String × String)) : HeaderMap :=
  fields.foldl (fun m f => m.insertOrAppend f.1 f.2) m

theorem find?_congr (m : HeaderMap) {a b : String} (h : foldCase a = foldCase b) :
    m.find? a = m.find? b := by
  unfold find?
  rw [h]

/-- `InsertOrAppend` changes the value of the names that fold as its key, and no other. -/
theorem find?_insertOrAppend (m : HeaderMap) (key value name : String) :
    (m.insertOrAppend key value).find? name =
      if foldCase key = foldCase name then some ((m.find? name).elim value (· ++ "," ++ value))
      else m.find? name := by
  unfold insertOrAppend
  split
  · -- a new name: it goes last, after every entry that could answer `name` first
    rename_i hkey
    unfold find?
    rw [List.find?_append]
    split_ifs with h
    · have hnone : m.find? name = none := (m.find?_congr h).symm.trans hkey
      unfold find? at hnone
      rw [Option.map_eq_none_iff] at hnone
      simp [hnone, h]
    · simp [h]
  · -- a known name: the entries are mapped in place and keep their names
    rename_i old hkey
    have hname : ∀ e : String × String,
        (if foldCase e.1 = foldCase key then (e.1, old ++ "," ++ value) else e).1 = e.1 := by
      intro e
      split <;> rfl
    unfold find?
    rw [List.find?_map]
    simp only [Function.comp_def, hname]
    split_ifs with h
    · have hsome : m.find? name = some old := (m.find?_congr h).symm.trans hkey
      unfold find? at hsome
      obtain ⟨e, he, rfl⟩ := Option.map_eq_some_iff.1 hsome
      have he' : foldCase e.1 = foldCase name := by simpa using List.find?_some he
      simp [he, he', h]
    · cases hfind : m.entries.find? (fun e => foldCase e.1 = foldCase name) with
      | none => rfl
      | some e =>
        have he : foldCase e.1 = foldCase name := by simpa using List.find?_some hfind
        simp [he, Ne.symm h]

theorem find?_ofFields (m : HeaderMap) (fields : List (String × String)) (name : String) :
    (m.ofFields fields).find? name =
      (valuesOf fields name).foldl (fun acc v => some (acc.elim v (· ++ "," ++ v))) (m.find? name) := by
  induction fields generalizing m with
  | nil => rfl
  | cons f fields ih =>
    rw [ofFields, List.foldl_cons, ← ofFields, ih, find?_insertOrAppend]
    unfold valuesOf
    by_cases h : foldCase f.1 = foldCase name <;> simp [h]

/-- Appending `','` and a value to the first of a list of values joined by `','`. -/
theorem intercalate_comma_append (a v : String) (vs : List String) :
    ",".intercalate ((a ++ "," ++ v) :: vs) = a ++ "," ++ ",".intercalate (v :: vs) := by
  cases vs with
  | nil => simp [String.intercalate_singleton]
  | cons w ws => simp [String.intercalate_cons_cons, String.append_assoc]

theorem foldl_append_comma (vs : List String) (a : String) :
    vs.foldl (fun acc v => some (acc.elim v (· ++ "," ++ v))) (some a) =
      some (",".intercalate (a :: vs)) := by
  induction vs generalizing a with
  | nil => simp [String.intercalate_singleton]
  | cons v vs ih =>
    rw [List.foldl_cons, Option.elim_some, ih, intercalate_comma_append, String.intercalate_cons_cons]

/-- A map filled from a list of headers: `GetHeader(name)` is the values of the headers named
`name` up to folding, joined by `','` in the order they came, and "" when there is none. -/
theorem getHeader_ofFields (fields : List (String × String)) (name : String) :
    (empty.ofFields fields).getHeader name = ",".intercalate (valuesOf fields name) := by
  rw [getHeader, find?_ofFields]
  cases valuesOf fields name with
  | nil => rfl
  | cons v vs =>
    rw [List.foldl_cons]
    exact congrArg (Option.getD · "") (foldl_append_comma vs v)

end HeaderMap

end Http

end Userver
