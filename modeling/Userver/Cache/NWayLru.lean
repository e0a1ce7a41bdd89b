import Userver.Cache.Lru
import Userver.Dump.RoundTrip

/-!
# `cache::NWayLRU`

`NWayLRU` (`nway_lru_cache.hpp`) spreads its keys over `ways` LRU maps (`LruMap`, whose `impl_`
is an `LruBase`): `GetWay(key)` mixes `hash_fn_(key)` by `boost::hash_combine(seed, 0)` and takes
it modulo the number of ways, and every call on a key goes to that way alone.  The mixing is
Boost's and differs between its versions: the model takes it as a parameter `hashCombine`, and no
result here depends on what it computes.  The mutexes and the notifications of the dumper do not
change what the cache holds, and the model leaves them out.

`Write` dumps the number of ways, then for each way its size and its pairs in the order of its
hash set (`VisitAll`; a parameter `visit` here, which lists the pairs of a way in some order).
`Read` clears the cache and `Put`s every pair it reads through `GetWay`, whatever way it was
dumped from.

* `WellFormed w s`: every way is a recency list of capacity `s` (`RoutedWay`) and holds only keys
  that `GetWay` sends to it.  Every cache that the constructor and the member functions can make
  is well formed (`Reachable.wellFormed`).
* `write_read_same_pairs`: a cache dumped by `Write` and loaded by `Read` into a new cache of the
  same ways, way size and hash has, way by way, the pairs `VisitAll` listed, so `Get` answers as
  the old one for every key and `GetSize` is the same.  Every key goes back to the way it came
  from, which held at most its capacity, so nothing is evicted on the way in.
-/

namespace Userver

namespace Cache

open Impl Codec Dump

/-- `NWayLRU<T, U, Hash, Equal>`: the `LruMap` of every way (`caches_`) and `hash_fn_`. -/
structure NWayLru (T U : Type) where
  ways : List (LruBase T U)
  hashFn : T → UInt64

namespace NWayLru

variable {T U : Type}

-- `boost::hash_combine(seed, 0)` of the Boost the build links, as a function of `seed`
variable (hashCombine : UInt64 → UInt64)

/-! ## The member functions -/

/-- The text of the `std::logic_error` of the constructor. -/
def kWaysMustBePositive : String := "Ways must be positive"

/-- The constructor: `ways` ways made by `LruMap(1, hash, equal)`, the error when there are none,
then `SetMaxSize(way_size)` on each. -/
def new (ways waySize : Nat) (hash : T → UInt64) : Except String (NWayLru T U) :=
  let caches : List (LruBase T U) := List.replicate ways (LruBase.new 1)
  if ways = 0 then .error kWaysMustBePositive
  else .ok ⟨caches.map (·.setMaxSize waySize), hash⟩

/-- `GetWay(key)`, as the index of the way in `caches_`. -/
def getWay (c : NWayLru T U) (key : T) : Nat :=
  (hashCombine (c.hashFn key)).toNat % c.ways.length

/-- The cache with the way `i` replaced by `f` of it. -/
def modifyWay (c : NWayLru T U) (i : Nat) (f : LruBase T U → LruBase T U) : NWayLru T U :=
  { c with ways := c.ways.modify i f }

/-- `Invalidate()`: `Clear()` on every way. -/
def invalidate (c : NWayLru T U) : NWayLru T U := { c with ways := c.ways.map LruBase.clear }

/-- `GetSize()`: the sum of the sizes of the ways. -/
def getSize (c : NWayLru T U) : Nat := (c.ways.map LruBase.getSize).sum

/-- `UpdateWaySize(way_size)`: `SetMaxSize(way_size)` on every way. -/
def updateWaySize (c : NWayLru T U) (waySize : Nat) : NWayLru T U :=
  { c with ways := c.ways.map (·.setMaxSize waySize) }

section KeyLookup

variable [DecidableEq T]

/-- `Put(key, value)`: `Put` on the way of the key. -/
def put (c : NWayLru T U) (key : T) (value : U) : NWayLru T U :=
  c.modifyWay (c.getWay hashCombine key) fun way => (way.put key value).2

/-- `Get(key, validator)`: the value the way of the key holds, if the validator accepts it; a
value it rejects is erased.  `Get(key)` is the validator that accepts everything. -/
def get (c : NWayLru T U) (key : T) (validator : U → Bool) : Option U × NWayLru T U :=
  match c.ways[c.getWay hashCombine key]? with
  | none => (none, c)
  | some way =>
    match way.get key with
    | (some value, way) =>
      if validator value then (some value, c.modifyWay (c.getWay hashCombine key) fun _ => way)
      else (none, c.modifyWay (c.getWay hashCombine key) fun _ => way.erase key)
    | (none, way) => (none, c.modifyWay (c.getWay hashCombine key) fun _ => way)

/-- `GetOr(key, default_value)`: `LruMap::GetOr` on the way of the key, `Get` or the default. -/
def getOr (c : NWayLru T U) (key : T) (defaultValue : U) : U × NWayLru T U :=
  match c.ways[c.getWay hashCombine key]? with
  | none => (defaultValue, c)
  | some way => ((way.get key).1.getD defaultValue, c.modifyWay (c.getWay hashCombine key) fun _ => (way.get key).2)

/-- `InvalidateByKey(key)`: `Erase(key)` on the way of the key. -/
def invalidateByKey (c : NWayLru T U) (key : T) : NWayLru T U :=
  c.modifyWay (c.getWay hashCombine key) fun way => way.erase key

end KeyLookup

/-! ## Dumps -/

section Dump

variable (writeKey : T → Except DumpError (List UInt8))
  (writeValue : U → Except DumpError (List UInt8)) (visit : LruBase T U → List (T × U))

/-- The lambda `VisitAll` calls in `Write`: `writer.Write(key); writer.Write(value);`. -/
def writeEntry (entry : T × U) : Except DumpError (List UInt8) := do
  let key ← writeKey entry.1
  let value ← writeValue entry.2
  pure (key ++ value)

/-- One way in `Write`: `writer.Write(way.cache.GetSize())`, then its pairs in the order of
`VisitAll`, which walks the hash set `map_` (`visit`). -/
def writeWay (way : LruBase T U) : Except DumpError (List UInt8) := do
  let entries ← writeMany (writeEntry writeKey writeValue) (visit way)
  pure (writeInt IntType.uint64 way.getSize ++ entries)

/-- `Write(writer)`: `writer.Write(caches_.size())`, then every way. -/
def write (c : NWayLru T U) : Except DumpError (List UInt8) := do
  let ways ← writeMany (writeWay writeKey writeValue visit) c.ways
  pure (writeInt IntType.uint64 c.ways.length ++ ways)

variable [DecidableEq T] (readKey : Reader T) (readValue : Reader U)

/-- The inner loop of `Read`: `elements_in_way` times a key, a value and `Put`. -/
def readEntries : Nat → NWayLru T U → Reader (NWayLru T U)
  | 0, c => pure c
  | n + 1, c => do
    let key ← readKey
    let value ← readValue
    readEntries n (c.put hashCombine key value)

/-- The outer loop of `Read`: `ways` times the number of pairs of a way, then its pairs. -/
def readWays : Nat → NWayLru T U → Reader (NWayLru T U)
  | 0, c => pure c
  | n + 1, c => do
    let elementsInWay ← readInt IntType.uint64
    let c ← readEntries hashCombine readKey readValue elementsInWay.1.toNat c
    readWays n c

/-- `Read(reader)`: `Invalidate()`, then the number of ways and the ways, every pair `Put`
through `GetWay`. -/
def read (c : NWayLru T U) : Reader (NWayLru T U) := do
  let c := c.invalidate
  let ways ← readInt IntType.uint64
  readWays hashCombine readKey readValue ways.1.toNat c

end Dump

/-! ## Ways -/

section Ways

variable {hashCombine}
variable {c : NWayLru T U} {i : Nat} {f : LruBase T U → LruBase T U}

@[simp] theorem hashFn_modifyWay : (c.modifyWay i f).hashFn = c.hashFn := rfl

@[simp] theorem length_modifyWay : (c.modifyWay i f).ways.length = c.ways.length :=
  List.length_modify f c.ways i

/-- `GetWay` reads the hash and the number of ways only. -/
theorem getWay_congr {e : NWayLru T U} (hhash : e.hashFn = c.hashFn)
    (hlen : e.ways.length = c.ways.length) : e.getWay hashCombine = c.getWay hashCombine := by
  funext key
  rw [getWay, getWay, hhash, hlen]

@[simp] theorem getWay_modifyWay : (c.modifyWay i f).getWay hashCombine = c.getWay hashCombine :=
  getWay_congr rfl length_modifyWay

theorem getElem?_modifyWay_self : (c.modifyWay i f).ways[i]? = c.ways[i]?.map f := by
  simp [modifyWay]

theorem getElem?_modifyWay_of_ne {j : Nat} (h : i ≠ j) : (c.modifyWay i f).ways[j]? = c.ways[j]? := by
  simp [modifyWay, h]

theorem modifyWay_modifyWay (g : LruBase T U → LruBase T U) :
    (c.modifyWay i f).modifyWay i g = c.modifyWay i (g ∘ f) := by
  unfold modifyWay
  rw [List.modify_modify_eq]

theorem modifyWay_id : c.modifyWay i id = c := by
  unfold modifyWay
  rw [List.modify_id]

/-- `Get` answers from the pairs of the way of the key. -/
theorem get_fst [DecidableEq T] (key : T) (validator : U → Bool) :
    (c.get hashCombine key validator).1 =
      ((c.ways.map LruBase.entries)[c.getWay hashCombine key]?).bind fun es => (es.lookup key).filter validator := by
  have hlookup : ∀ way : LruBase T U, (way.get key).1 = way.entries.lookup key := by
    intro way
    rw [LruBase.get, LruBase.getTransparentImpl, LruBase.find_eq_lookup]
    cases way.entries.lookup key <;> rfl
  rw [List.getElem?_map]
  unfold NWayLru.get
  split
  · rename_i hnone
    rw [hnone]
    rfl
  · rename_i way hway
    rw [hway, Option.map_some, Option.bind_some, ← hlookup]
    split
    · rename_i value way' hr
      rw [hr]
      split
      · rename_i hv
        simp [Option.filter, hv]
      · rename_i hv
        simp [Option.filter, hv]
    · rename_i way' hr
      rw [hr]
      rfl

@[simp] theorem hashFn_invalidate : c.invalidate.hashFn = c.hashFn := rfl

@[simp] theorem length_invalidate : c.invalidate.ways.length = c.ways.length := List.length_map _

theorem getSize_eq_sum : c.getSize = ((c.ways.map LruBase.entries).map List.length).sum := by
  have hsize : LruBase.getSize = List.length ∘ (LruBase.entries : LruBase T U → List (T × U)) := by
    funext way
    exact LruBase.getSize_eq way
  rw [getSize, List.map_map, hsize]

end Ways

/-! ## Well-formed caches -/

/-- The capacity `SetMaxSize(way_size)` gives a way: `0` is taken as `1`. -/
def capOf (waySize : Nat) : ℕ+ := ⟨if waySize = 0 then 1 else waySize, by split <;> omega⟩

theorem capOf_val (s : Nat) : (capOf s : Nat) = if s = 0 then 1 else s := rfl

theorem setMaxSize_capOf (way : LruBase T U) (s : Nat) :
    way.setMaxSize s = way.setMaxSize (capOf s) := by
  unfold LruBase.setMaxSize capOf
  by_cases hs : s = 0 <;> simp [hs]

/-- The way `i` of a cache of way size `s`: it holds the pairs of a recency list of capacity `s`,
and only keys that `route` sends to `i`. -/
def RoutedWay (route : T → Nat) (s i : Nat) (way : LruBase T U) : Prop :=
  ∃ l : LruList T U, way.Refines l ∧ l.cap = capOf s ∧ ∀ p ∈ l.entries, route p.1 = i

section RoutedWay

variable {route : T → Nat} {s i : Nat} {way : LruBase T U}

theorem RoutedWay.keys_nodup (h : RoutedWay route s i way) : (way.entries.map Prod.fst).Nodup := by
  obtain ⟨l, hl, -, -⟩ := h
  rw [hl.1]
  exact l.keys_nodup

theorem RoutedWay.length_le (h : RoutedWay route s i way) : way.entries.length ≤ capOf s := by
  obtain ⟨l, hl, hcap, -⟩ := h
  rw [hl.1, ← hcap]
  exact l.length_le

theorem RoutedWay.route_eq (h : RoutedWay route s i way) {p : T × U} (hp : p ∈ way.entries) :
    route p.1 = i := by
  obtain ⟨l, hl, -, hroute⟩ := h
  rw [hl.1] at hp
  exact hroute p hp

theorem RoutedWay.congr {route' : T → Nat} (h : RoutedWay route s i way) (hroute : route' = route) :
    RoutedWay route' s i way := hroute ▸ h

theorem RoutedWay.clear (h : RoutedWay route s i way) : RoutedWay route s i way.clear := by
  obtain ⟨l, hl, hcap, -⟩ := h
  exact ⟨l.clear, hl.clear, hcap, by simp⟩

theorem RoutedWay.setMaxSize (h : RoutedWay route s i way) (s' : Nat) :
    RoutedWay route s' i (way.setMaxSize s') := by
  obtain ⟨l, hl, -, hroute⟩ := h
  refine ⟨l.shrink (capOf s'), ?_, rfl, fun p hp => hroute p ((List.drop_sublist _ _).subset hp)⟩
  rw [setMaxSize_capOf]
  exact hl.setMaxSize (capOf s')

variable [DecidableEq T]

/-- A key `Put` into its own way keeps the way routed. -/
theorem RoutedWay.put (h : RoutedWay route s i way) {key : T} (hkey : route key = i) (value : U) :
    RoutedWay route s i (way.put key value).2 := by
  obtain ⟨l, hl, hcap, hroute⟩ := h
  refine ⟨l.use key value, (hl.put key value).2, hcap, fun p hp => ?_⟩
  rcases LruList.mem_use_entries hp with hold | rfl
  · exact hroute p hold
  · exact hkey

theorem RoutedWay.get (h : RoutedWay route s i way) {key : T} (hkey : route key = i) :
    RoutedWay route s i (way.get key).2 := by
  obtain ⟨l, hl, hcap, hroute⟩ := h
  obtain ⟨-, hnext⟩ := hl.get key
  cases hv : l.lookup key with
  | none =>
    rw [hv] at hnext
    exact ⟨l, hnext, hcap, hroute⟩
  | some v =>
    rw [hv] at hnext
    refine ⟨l.use key v, hnext, hcap, fun p hp => ?_⟩
    rcases LruList.mem_use_entries hp with hold | rfl
    · exact hroute p hold
    · exact hkey

theorem RoutedWay.erase (h : RoutedWay route s i way) (key : T) :
    RoutedWay route s i (way.erase key) := by
  obtain ⟨l, hl, hcap, hroute⟩ := h
  refine ⟨l.erase key, ?_, hcap,
    fun p hp => hroute p ((LruList.without_sublist key l.entries).subset hp)⟩
  rw [LruBase.erase_eq_unlink]
  exact hl.unlink key

end RoutedWay

/-- A cache of `w` ways of way size `s`: every way `i` is a recency list of capacity `s` that holds
only keys `GetWay` sends to `i`. -/
structure WellFormed (w s : Nat) (c : NWayLru T U) : Prop where
  length_ways : c.ways.length = w
  pos : 0 < w
  ways : ∀ i way, c.ways[i]? = some way → RoutedWay (c.getWay hashCombine) s i way

section WellFormed

variable {hashCombine}
variable {w s : Nat} {c : NWayLru T U}

/-- A change of one way that keeps it routed keeps the cache well formed. -/
theorem WellFormed.modifyWay (hc : c.WellFormed hashCombine w s) {i : Nat} {f : LruBase T U → LruBase T U}
    (hf : ∀ way, c.ways[i]? = some way → RoutedWay (c.getWay hashCombine) s i way →
      RoutedWay (c.getWay hashCombine) s i (f way)) :
    (c.modifyWay i f).WellFormed hashCombine w s where
  length_ways := length_modifyWay.trans hc.length_ways
  pos := hc.pos
  ways := by
    intro j way hj
    rw [getWay_modifyWay]
    by_cases hij : i = j
    · subst hij
      rw [getElem?_modifyWay_self] at hj
      obtain ⟨old, hold, rfl⟩ := Option.map_eq_some_iff.1 hj
      exact hf old hold (hc.ways i old hold)
    · rw [getElem?_modifyWay_of_ne hij] at hj
      exact hc.ways j way hj

/-- A change of every way that keeps it routed, from way size `s` to `s'`. -/
theorem WellFormed.mapWays (hc : c.WellFormed hashCombine w s) {s' : Nat} (g : LruBase T U → LruBase T U)
    (hg : ∀ i way, RoutedWay (c.getWay hashCombine) s i way → RoutedWay (c.getWay hashCombine) s' i (g way)) :
    ({ c with ways := c.ways.map g } : NWayLru T U).WellFormed hashCombine w s' where
  length_ways := (List.length_map g).trans hc.length_ways
  pos := hc.pos
  ways := by
    intro i way hway
    rw [List.getElem?_map] at hway
    obtain ⟨old, hold, rfl⟩ := Option.map_eq_some_iff.1 hway
    exact (hg i old (hc.ways i old hold)).congr (getWay_congr rfl (List.length_map g))

theorem WellFormed.invalidate (hc : c.WellFormed hashCombine w s) : c.invalidate.WellFormed hashCombine w s :=
  hc.mapWays LruBase.clear fun _ _ hway => hway.clear

theorem WellFormed.updateWaySize (hc : c.WellFormed hashCombine w s) (waySize : Nat) :
    (c.updateWaySize waySize).WellFormed hashCombine w waySize :=
  hc.mapWays _ fun _ _ hway => hway.setMaxSize waySize

/-- The constructor makes a well-formed cache with the hash it was given. -/
theorem new_wellFormed {hash : T → UInt64} (h : new w s hash = .ok c) :
    c.WellFormed hashCombine w s ∧ c.hashFn = hash := by
  unfold new at h
  split at h
  · cases h
  · rename_i hw
    obtain rfl := Except.ok.inj h
    -- the ways of `LruMap(1, ...)`, each an empty list of capacity one
    have hone : (⟨List.replicate w (LruBase.new 1), hash⟩ : NWayLru T U).WellFormed hashCombine w 1 := by
      refine ⟨List.length_replicate, Nat.pos_of_ne_zero hw, fun i way hway => ?_⟩
      rw [List.getElem?_replicate] at hway
      split at hway
      · obtain rfl := Option.some.inj hway
        exact ⟨LruList.new 1, ⟨rfl, rfl⟩, rfl, by simp⟩
      · cases hway
    exact ⟨hone.mapWays _ fun _ _ hway => hway.setMaxSize s, rfl⟩

variable [DecidableEq T]

theorem WellFormed.put (hc : c.WellFormed hashCombine w s) (key : T) (value : U) :
    (c.put hashCombine key value).WellFormed hashCombine w s :=
  hc.modifyWay fun _ _ hway => hway.put rfl value

theorem WellFormed.invalidateByKey (hc : c.WellFormed hashCombine w s) (key : T) :
    (c.invalidateByKey hashCombine key).WellFormed hashCombine w s :=
  hc.modifyWay fun _ _ hway => hway.erase key

theorem WellFormed.get (hc : c.WellFormed hashCombine w s) (key : T) (validator : U → Bool) :
    (c.get hashCombine key validator).2.WellFormed hashCombine w s := by
  unfold NWayLru.get
  split
  · exact hc
  · rename_i way hway
    have hget := (hc.ways _ way hway).get (show c.getWay hashCombine key = c.getWay hashCombine key from rfl)
    split
    · rename_i value way' hr
      rw [hr] at hget
      split
      · exact hc.modifyWay fun _ _ _ => hget
      · exact hc.modifyWay fun _ _ _ => hget.erase key
    · rename_i way' hr
      rw [hr] at hget
      exact hc.modifyWay fun _ _ _ => hget

theorem WellFormed.getOr (hc : c.WellFormed hashCombine w s) (key : T) (defaultValue : U) :
    (c.getOr hashCombine key defaultValue).2.WellFormed hashCombine w s := by
  unfold NWayLru.getOr
  split
  · exact hc
  · rename_i way hway
    exact hc.modifyWay fun _ _ _ => (hc.ways _ way hway).get rfl

end WellFormed

/-! ## What `Read` keeps -/

section ReadInvariant

variable {hashCombine}
variable [DecidableEq T] (readKey : Reader T) (readValue : Reader U)
  (P : NWayLru T U → Prop) (hput : ∀ c key value, P c → P (c.put hashCombine key value))
include hput

theorem readEntries_invariant : ∀ (n : Nat) (c c' : NWayLru T U) (bytes rest : List UInt8),
    P c → (readEntries hashCombine readKey readValue n c).run bytes = .ok (c', rest) → P c'
  | 0, c, c', bytes, rest, hc, h => by
    obtain ⟨rfl, -⟩ := Prod.mk.inj (Except.ok.inj h)
    exact hc
  | n + 1, c, c', bytes, rest, hc, h => by
    -- a key, a value, and the loop from the cache with the pair put
    obtain ⟨key, bytes₁, -, h⟩ := run_bind_eq_ok.1 h
    obtain ⟨value, bytes₂, -, h⟩ := run_bind_eq_ok.1 h
    exact readEntries_invariant n _ c' bytes₂ rest (hput c key value hc) h

theorem readWays_invariant : ∀ (n : Nat) (c c' : NWayLru T U) (bytes rest : List UInt8),
    P c → (readWays hashCombine readKey readValue n c).run bytes = .ok (c', rest) → P c'
  | 0, c, c', bytes, rest, hc, h => by
    obtain ⟨rfl, -⟩ := Prod.mk.inj (Except.ok.inj h)
    exact hc
  | n + 1, c, c', bytes, rest, hc, h => by
    obtain ⟨count, bytes₁, -, h⟩ := run_bind_eq_ok.1 h
    obtain ⟨c₁, bytes₂, hentries, h⟩ := run_bind_eq_ok.1 h
    have hc₁ := readEntries_invariant readKey readValue P hput _ c c₁ bytes₁ bytes₂ hc hentries
    exact readWays_invariant n c₁ c' bytes₂ rest hc₁ h

/-- A predicate that `Invalidate` and `Put` keep holds of what `Read` loads. -/
theorem read_invariant (hinvalidate : ∀ c, P c → P c.invalidate) {c c' : NWayLru T U}
    {bytes rest : List UInt8} (hc : P c) (h : (c.read hashCombine readKey readValue).run bytes = .ok (c', rest)) :
    P c' := by
  obtain ⟨count, bytes₁, -, h⟩ := run_bind_eq_ok.1 h
  exact readWays_invariant readKey readValue P hput _ _ c' bytes₁ rest (hinvalidate c hc) h

end ReadInvariant

/-! ## The caches a program can make -/

section Reachable

variable [DecidableEq T]

/-- The caches of `w` ways with the hash `hash` whose last way size set is `s`: made by the
constructor, then changed by the member functions, `Read` of any dump included. -/
inductive Reachable (w : Nat) (hash : T → UInt64) : Nat → NWayLru T U → Prop
  | new {s : Nat} {c : NWayLru T U} : NWayLru.new w s hash = .ok c → Reachable w hash s c
  | put {s : Nat} {c : NWayLru T U} (key : T) (value : U) :
      Reachable w hash s c → Reachable w hash s (c.put hashCombine key value)
  | get {s : Nat} {c : NWayLru T U} (key : T) (validator : U → Bool) :
      Reachable w hash s c → Reachable w hash s (c.get hashCombine key validator).2
  | getOr {s : Nat} {c : NWayLru T U} (key : T) (defaultValue : U) :
      Reachable w hash s c → Reachable w hash s (c.getOr hashCombine key defaultValue).2
  | invalidate {s : Nat} {c : NWayLru T U} : Reachable w hash s c → Reachable w hash s c.invalidate
  | invalidateByKey {s : Nat} {c : NWayLru T U} (key : T) :
      Reachable w hash s c → Reachable w hash s (c.invalidateByKey hashCombine key)
  | updateWaySize {s : Nat} {c : NWayLru T U} (waySize : Nat) :
      Reachable w hash s c → Reachable w hash waySize (c.updateWaySize waySize)
  | read {s : Nat} {c c' : NWayLru T U} (readKey : Reader T) (readValue : Reader U)
      {bytes rest : List UInt8} :
      Reachable w hash s c → (c.read hashCombine readKey readValue).run bytes = .ok (c', rest) →
        Reachable w hash s c'

variable {hashCombine}

theorem hashFn_put (c : NWayLru T U) (key : T) (value : U) : (c.put hashCombine key value).hashFn = c.hashFn :=
  hashFn_modifyWay

theorem hashFn_invalidateByKey (c : NWayLru T U) (key : T) :
    (c.invalidateByKey hashCombine key).hashFn = c.hashFn :=
  hashFn_modifyWay

theorem hashFn_get (c : NWayLru T U) (key : T) (validator : U → Bool) :
    (c.get hashCombine key validator).2.hashFn = c.hashFn := by
  -- `rfl` would compare the ways first, and unfold `GetWay` on a symbolic hash
  unfold NWayLru.get
  split
  · rfl
  · split
    · split <;> exact hashFn_modifyWay
    · exact hashFn_modifyWay

theorem hashFn_getOr (c : NWayLru T U) (key : T) (defaultValue : U) :
    (c.getOr hashCombine key defaultValue).2.hashFn = c.hashFn := by
  unfold NWayLru.getOr
  split
  · rfl
  · exact hashFn_modifyWay

/-- Every cache a program can make is well formed, for the way size set last, and keeps its hash. -/
theorem Reachable.wellFormed {w s : Nat} {hash : T → UInt64} {c : NWayLru T U}
    (h : Reachable hashCombine w hash s c) : c.WellFormed hashCombine w s ∧ c.hashFn = hash := by
  induction h with
  | new hnew => exact new_wellFormed hnew
  | put key value _ ih => exact ⟨ih.1.put key value, (hashFn_put _ key value).trans ih.2⟩
  | get key validator _ ih => exact ⟨ih.1.get key validator, (hashFn_get _ key validator).trans ih.2⟩
  | getOr key defaultValue _ ih =>
    exact ⟨ih.1.getOr key defaultValue, (hashFn_getOr _ key defaultValue).trans ih.2⟩
  | invalidate _ ih => exact ⟨ih.1.invalidate, ih.2⟩
  | invalidateByKey key _ ih =>
    exact ⟨ih.1.invalidateByKey key, (hashFn_invalidateByKey _ key).trans ih.2⟩
  | updateWaySize waySize _ ih => exact ⟨ih.1.updateWaySize waySize, ih.2⟩
  | read readKey readValue _ hread ih =>
    exact read_invariant readKey readValue (fun e => _ ∧ e.hashFn = hash)
      (fun _ key value he => ⟨he.1.put key value, (hashFn_put _ key value).trans he.2⟩)
      (fun _ he => ⟨he.1.invalidate, he.2⟩) ih hread

end Reachable

/-! ## `Read` after `Write` -/

section RoundTrip

variable [DecidableEq T]

/-- `Put` of the pairs of a list, in order: what `Read` does with the pairs of one way. -/
def putAll (c : NWayLru T U) (entries : List (T × U)) : NWayLru T U :=
  entries.foldl (fun c p => c.put hashCombine p.1 p.2) c

/-- `Put` of the pairs of a list into one way, in order. -/
def wayPutAll (way : LruBase T U) (entries : List (T × U)) : LruBase T U :=
  entries.foldl (fun way p => (way.put p.1 p.2).2) way

variable {hashCombine}

theorem putAll_cons (c : NWayLru T U) (p : T × U) (entries : List (T × U)) :
    c.putAll hashCombine (p :: entries) = (c.put hashCombine p.1 p.2).putAll hashCombine entries := rfl

theorem getWay_put (c : NWayLru T U) (key : T) (value : U) :
    (c.put hashCombine key value).getWay hashCombine = c.getWay hashCombine :=
  getWay_modifyWay

theorem hashFn_putAll : ∀ (entries : List (T × U)) (c : NWayLru T U),
    (c.putAll hashCombine entries).hashFn = c.hashFn
  | [], _ => rfl
  | p :: entries, c => by
    rw [putAll_cons, hashFn_putAll entries, hashFn_put]

theorem length_putAll : ∀ (entries : List (T × U)) (c : NWayLru T U),
    (c.putAll hashCombine entries).ways.length = c.ways.length
  | [], _ => rfl
  | p :: entries, c => by
    rw [putAll_cons, length_putAll entries]
    exact length_modifyWay

/-- Pairs whose keys all go to the way `i` are put into that way alone. -/
theorem putAll_of_routed {i : Nat} : ∀ (entries : List (T × U)) (c : NWayLru T U),
    (∀ p ∈ entries, c.getWay hashCombine p.1 = i) → c.putAll hashCombine entries = c.modifyWay i fun way => wayPutAll way entries
  | [], c, _ => modifyWay_id.symm
  | p :: entries, c, hroute => by
    have hp : c.getWay hashCombine p.1 = i := hroute p List.mem_cons_self
    have hrest : ∀ q ∈ entries, (c.put hashCombine p.1 p.2).getWay hashCombine q.1 = i := by
      intro q hq
      rw [getWay_put]
      exact hroute q (List.mem_cons_of_mem p hq)
    rw [putAll_cons, putAll_of_routed entries _ hrest, put, hp, modifyWay_modifyWay]
    rfl

/-- Distinct new keys put into a way with room for all of them come in after its pairs, in
order: nothing is evicted. -/
theorem refines_wayPutAll : ∀ (entries : List (T × U)) {way : LruBase T U} {l : LruList T U},
    way.Refines l → ((l.entries ++ entries).map Prod.fst).Nodup →
      l.entries.length + entries.length ≤ l.cap →
        ∃ l' : LruList T U, (wayPutAll way entries).Refines l' ∧
          l'.entries = l.entries ++ entries ∧ l'.cap = l.cap
  | [], way, l, h, _, _ => ⟨l, h, (List.append_nil _).symm, rfl⟩
  | (key, value) :: entries, way, l, h, hnd, hlen => by
    rw [List.append_cons] at hnd ⊢
    -- the new key is not there, and there is room for it
    have hkey : key ∉ l.entries.map Prod.fst := by
      have hnd' := hnd
      rw [List.map_append, List.map_append, List.map_singleton, List.nodup_append,
        List.nodup_append] at hnd'
      exact fun hmem => hnd'.1.2.2 key hmem key (List.mem_singleton_self key) rfl
    have hroom : l.room = l.entries := by
      rw [LruList.room, if_pos (by simp at hlen; omega)]
    have hnext : LruList.entries (l.use key value) = l.entries ++ [(key, value)] := by
      rw [LruList.use_entries_of_not_mem hkey, hroom]
    obtain ⟨l', hl', hentries, hcap⟩ := refines_wayPutAll entries (h.put key value).2
      (by rw [hnext]; exact hnd) (by rw [hnext, LruList.use_cap]; simp at hlen ⊢; omega)
    exact ⟨l', hl', hentries.trans (by rw [hnext]), hcap⟩

/-- After `Read` has put the pairs `visit` gives of the ways `cs`: every way `j` is a recency
list of capacity `s` that holds what `visit` gave of the way `j` of `cs`, or nothing. -/
def Loaded (visit : LruBase T U → List (T × U)) (s : Nat) (cs : List (LruBase T U))
    (e : NWayLru T U) : Prop :=
  ∀ (j : Nat) (way : LruBase T U), e.ways[j]? = some way →
    ∃ l : LruList T U, way.Refines l ∧ l.cap = capOf s ∧ l.entries = ((cs.map visit)[j]?).getD []

section Loaded

variable {visit : LruBase T U → List (T × U)} {w s : Nat} {c : NWayLru T U}

omit [DecidableEq T] in
/-- `Invalidate` leaves every way empty. -/
theorem WellFormed.loaded_invalidate (hc : c.WellFormed hashCombine w s) : Loaded visit s [] c.invalidate := by
  unfold Loaded
  intro j way hway
  change (c.ways.map LruBase.clear)[j]? = some way at hway
  rw [List.getElem?_map] at hway
  obtain ⟨old, hold, rfl⟩ := Option.map_eq_some_iff.1 hway
  obtain ⟨l, hl, hcap, -⟩ := hc.ways j old hold
  exact ⟨l.clear, hl.clear, hcap, by simp⟩

/-- `Read` of the next way of a well-formed cache `c` puts its pairs back into the same way: its
keys go there, it was empty, and it has room for them all. -/
theorem Loaded.putAll (hvisit : ∀ way, (visit way).Perm way.entries) (hc : c.WellFormed hashCombine w s)
    {n : Nat} (hn : n < c.ways.length) {e : NWayLru T U} (hhash : e.hashFn = c.hashFn)
    (hlen : e.ways.length = c.ways.length) (he : Loaded visit s (c.ways.take n) e) :
    Loaded visit s (c.ways.take (n + 1)) (e.putAll hashCombine (visit c.ways[n])) := by
  have hcw := hc.ways n c.ways[n] (List.getElem?_eq_getElem hn)
  have hroute : ∀ p ∈ visit c.ways[n], e.getWay hashCombine p.1 = n := by
    intro p hp
    rw [getWay_congr hhash hlen]
    exact hcw.route_eq ((hvisit _).subset hp)
  rw [putAll_of_routed _ _ hroute]
  unfold Loaded at he ⊢
  intro j way hj
  by_cases hnj : n = j
  · -- the way being loaded: empty before, the pairs of `visit` after
    subst hnj
    rw [getElem?_modifyWay_self] at hj
    obtain ⟨old, hold, rfl⟩ := Option.map_eq_some_iff.1 hj
    obtain ⟨l, hl, hcap, hentries⟩ := he n old hold
    have hnil : l.entries = [] := by simp [hentries]
    obtain ⟨l', hl', hentries', hcap'⟩ := refines_wayPutAll (visit c.ways[n]) hl
      (by rw [hnil, List.nil_append]; exact ((hvisit _).map Prod.fst).nodup_iff.2 hcw.keys_nodup)
      (by rw [hnil, List.length_nil, Nat.zero_add, (hvisit _).length_eq, hcap]; exact hcw.length_le)
    refine ⟨l', hl', hcap'.trans hcap, ?_⟩
    rw [hentries', hnil, List.nil_append, List.getElem?_map, List.getElem?_take,
      if_pos (Nat.lt_succ_self n), List.getElem?_eq_getElem hn]
    rfl
  · rw [getElem?_modifyWay_of_ne hnj] at hj
    obtain ⟨l, hl, hcap, hentries⟩ := he j way hj
    refine ⟨l, hl, hcap, ?_⟩
    rw [hentries, List.getElem?_map, List.getElem?_map, List.getElem?_take, List.getElem?_take]
    by_cases hjn : j < n
    · rw [if_pos hjn, if_pos (by omega)]
    · rw [if_neg hjn, if_neg (by omega)]

omit [DecidableEq T] in
/-- Every way loaded: the ways hold what `visit` gave of the ways of `cs`. -/
theorem Loaded.entries_eq {cs : List (LruBase T U)} {e : NWayLru T U} (he : Loaded visit s cs e)
    (hlen : e.ways.length = cs.length) : e.ways.map LruBase.entries = cs.map visit := by
  unfold Loaded at he
  apply List.ext_getElem?
  intro j
  rw [List.getElem?_map, List.getElem?_map]
  cases hway : e.ways[j]? with
  | none =>
    have hj : cs.length ≤ j := hlen ▸ List.getElem?_eq_none_iff.1 hway
    rw [Option.map_none, List.getElem?_eq_none_iff.2 hj, Option.map_none]
  | some way =>
    obtain ⟨l, hl, -, hentries⟩ := he j way hway
    have hj : j < cs.length := hlen ▸ (List.getElem?_eq_some_iff.1 hway).1
    rw [Option.map_some, hl.1, hentries, List.getElem?_map, List.getElem?_eq_getElem hj]
    rfl

/-- `Read` of the ways of a well-formed cache `c`, one after another, into an invalidated cache
`d` of the same ways and hash: after `n` of them, those `n` are back. -/
theorem loaded_foldl (hvisit : ∀ way, (visit way).Perm way.entries) (hc : c.WellFormed hashCombine w s)
    {d : NWayLru T U} (hd : d.WellFormed hashCombine w s) (hhash : d.hashFn = c.hashFn) :
    ∀ n ≤ c.ways.length,
      ((c.ways.take n).foldl (fun e way => e.putAll hashCombine (visit way)) d.invalidate).hashFn = c.hashFn ∧
      ((c.ways.take n).foldl (fun e way => e.putAll hashCombine (visit way)) d.invalidate).ways.length =
        c.ways.length ∧
      Loaded visit s (c.ways.take n) ((c.ways.take n).foldl (fun e way => e.putAll hashCombine (visit way)) d.invalidate)
  | 0, _ => by
    simp only [List.take_zero, List.foldl_nil]
    exact ⟨hhash, by rw [length_invalidate, hd.length_ways, hc.length_ways], hd.loaded_invalidate⟩
  | n + 1, hn => by
    obtain ⟨hhash', hlen', hloaded⟩ := loaded_foldl hvisit hc hd hhash n (by omega)
    have hfold : (c.ways.take (n + 1)).foldl (fun e way => e.putAll hashCombine (visit way)) d.invalidate =
        ((c.ways.take n).foldl (fun e way => e.putAll hashCombine (visit way)) d.invalidate).putAll hashCombine
          (visit c.ways[n]) := by
      rw [List.take_add_one, List.getElem?_eq_getElem (by omega : n < c.ways.length),
        Option.toList_some, List.foldl_append, List.foldl_cons, List.foldl_nil]
    rw [hfold]
    exact ⟨(hashFn_putAll _ _).trans hhash', (length_putAll _ _).trans hlen',
      hloaded.putAll hvisit hc (by omega) hhash' hlen'⟩

end Loaded

section Decode

variable (hashCombine)
variable {writeKey : T → Except DumpError (List UInt8)}
  {writeValue : U → Except DumpError (List UInt8)} {readKey : Reader T} {readValue : Reader U}
  (hkey : ∀ key bytes, writeKey key = .ok bytes → ReadsBack readKey bytes key)
  (hvalue : ∀ value bytes, writeValue value = .ok bytes → ReadsBack readValue bytes value)
include hkey hvalue

/-- The pairs of a way are read back and `Put` in the order they were written. -/
theorem readsBack_readEntries : ∀ (entries : List (T × U)) (bytes : List UInt8) (c : NWayLru T U),
    writeMany (writeEntry writeKey writeValue) entries = .ok bytes →
      ReadsBack (readEntries hashCombine readKey readValue entries.length c) bytes (c.putAll hashCombine entries)
  | [], bytes, c, hw => by
    obtain rfl := Except.ok.inj hw
    exact ReadsBack.pure c
  | (key, value) :: entries, bytes, c, hw => by
    rw [writeMany] at hw
    obtain ⟨b, hb, hw⟩ := bind_eq_ok.1 hw
    obtain ⟨bs, hbs, hw⟩ := bind_eq_ok.1 hw
    obtain rfl := Except.ok.inj hw
    unfold writeEntry at hb
    obtain ⟨kb, hkb, hb⟩ := bind_eq_ok.1 hb
    obtain ⟨vb, hvb, hb⟩ := bind_eq_ok.1 hb
    obtain rfl := Except.ok.inj hb
    have hrest := readsBack_readEntries entries bs (c.put hashCombine key value) hbs
    rw [List.length_cons, readEntries, putAll_cons, List.append_assoc]
    exact (hkey key kb hkb).bind ((hvalue value vb hvb).bind hrest)

/-- The ways are read back one after another, each from its size and its pairs. -/
theorem readsBack_readWays (visit : LruBase T U → List (T × U))
    (hvisit : ∀ way, (visit way).length = way.getSize) :
    ∀ (ways : List (LruBase T U)) (bytes : List UInt8) (c : NWayLru T U),
      (∀ way ∈ ways, way.getSize < 2 ^ 64) →
      writeMany (writeWay writeKey writeValue visit) ways = .ok bytes →
        ReadsBack (readWays hashCombine readKey readValue ways.length c) bytes
          (ways.foldl (fun c way => c.putAll hashCombine (visit way)) c)
  | [], bytes, c, _, hw => by
    obtain rfl := Except.ok.inj hw
    exact ReadsBack.pure c
  | way :: ways, bytes, c, hsize, hw => by
    rw [writeMany] at hw
    obtain ⟨b, hb, hw⟩ := bind_eq_ok.1 hw
    obtain ⟨bs, hbs, hw⟩ := bind_eq_ok.1 hw
    obtain rfl := Except.ok.inj hw
    unfold writeWay at hb
    obtain ⟨eb, heb, hb⟩ := bind_eq_ok.1 hb
    obtain rfl := Except.ok.inj hb
    have hcount := readsBack_readInt IntType.uint64
      (uint64_inRange_length (hsize way List.mem_cons_self))
    have hentries := readsBack_readEntries hashCombine hkey hvalue (visit way) eb c heb
    have hrest := readsBack_readWays visit hvisit ways bs (c.putAll hashCombine (visit way))
      (fun x hx => hsize x (List.mem_cons_of_mem way hx)) hbs
    rw [hvisit way] at hentries
    rw [List.length_cons, readWays, List.foldl_cons, List.append_assoc]
    refine hcount.bind ?_
    simp only [Int.toNat_natCast]
    exact hentries.bind hrest

/-- `Read` of what `Write` wrote: the number of ways, then every way put back through `GetWay`
into the invalidated cache. -/
theorem readsBack_read_of_write (visit : LruBase T U → List (T × U))
    (hvisit : ∀ way, (visit way).length = way.getSize) {c : NWayLru T U} {bytes : List UInt8}
    (hw : c.write writeKey writeValue visit = .ok bytes) (hlen : c.ways.length < 2 ^ 64)
    (hsize : ∀ way ∈ c.ways, way.getSize < 2 ^ 64) (d : NWayLru T U) :
    ReadsBack (d.read hashCombine readKey readValue) bytes
      (c.ways.foldl (fun e way => e.putAll hashCombine (visit way)) d.invalidate) := by
  unfold write at hw
  obtain ⟨b, hb, hw⟩ := bind_eq_ok.1 hw
  obtain rfl := Except.ok.inj hw
  have hcount := readsBack_readInt IntType.uint64 (uint64_inRange_length hlen)
  have hways := readsBack_readWays hashCombine hkey hvalue visit hvisit c.ways b d.invalidate hsize hb
  unfold read
  refine hcount.bind ?_
  simp only [Int.toNat_natCast]
  exact hways

end Decode

/-- `Write` and then `Read` into a new cache of the same ways, way size and hash: the new cache
holds, way by way, the pairs `VisitAll` listed, so `Get` answers as before for every key and
`GetSize` is the same. -/
theorem write_read_same_pairs {w s : Nat} {hash : T → UInt64} {c d : NWayLru T U}
    (hc : Reachable hashCombine w hash s c) (hd : new w s hash = .ok d) (hw : w < 2 ^ 64) (hs : s < 2 ^ 64)
    {writeKey : T → Except DumpError (List UInt8)} {writeValue : U → Except DumpError (List UInt8)}
    {readKey : Reader T} {readValue : Reader U}
    (hkey : ∀ key bytes, writeKey key = .ok bytes → ReadsBack readKey bytes key)
    (hvalue : ∀ value bytes, writeValue value = .ok bytes → ReadsBack readValue bytes value)
    {visit : LruBase T U → List (T × U)} (hvisit : ∀ way, (visit way).Perm way.entries)
    {bytes : List UInt8} (hwrite : c.write writeKey writeValue visit = .ok bytes)
    (rest : List UInt8) :
    ∃ d' : NWayLru T U, (d.read hashCombine readKey readValue).run (bytes ++ rest) = .ok (d', rest) ∧
      d'.ways.map LruBase.entries = c.ways.map visit ∧
      (∀ key validator, (d'.get hashCombine key validator).1 = (c.get hashCombine key validator).1) ∧
      d'.getSize = c.getSize := by
  obtain ⟨hwf, hchash⟩ := hc.wellFormed
  obtain ⟨hdwf, hdhash⟩ := new_wellFormed hd
  -- every way holds at most `s` pairs, and `s` fits a `std::size_t`
  have hsize : ∀ way ∈ c.ways, way.getSize < 2 ^ 64 := by
    intro way hway
    obtain ⟨i, hi⟩ := List.mem_iff_getElem?.1 hway
    have hle := (hwf.ways i way hi).length_le
    rw [capOf_val] at hle
    rw [LruBase.getSize_eq]
    split_ifs at hle <;> omega
  have hlength : ∀ way, (visit way).length = way.getSize :=
    fun way => (hvisit way).length_eq.trans (LruBase.getSize_eq way).symm
  obtain ⟨hhash', hlen', hloaded⟩ :=
    loaded_foldl hvisit hwf hdwf (hdhash.trans hchash.symm) c.ways.length le_rfl
  rw [List.take_length] at hhash' hlen' hloaded
  have hentries := hloaded.entries_eq hlen'
  refine ⟨_, readsBack_read_of_write hashCombine hkey hvalue visit hlength hwrite
    (hwf.length_ways ▸ hw) hsize d rest, hentries, ?_, ?_⟩
  · intro key validator
    rw [get_fst, get_fst, getWay_congr hhash' hlen', hentries, List.getElem?_map,
      List.getElem?_map]
    cases hcw : c.ways[c.getWay hashCombine key]? with
    | none => rfl
    | some cw =>
      -- `VisitAll` lists the pairs of the way once each, so the lookups agree
      have hnd := (hwf.ways _ cw hcw).keys_nodup
      simp only [Option.map_some, Option.bind_some]
      rw [LruList.lookup_eq_of_perm (hvisit cw) (((hvisit cw).map Prod.fst).nodup_iff.2 hnd) key]
  · rw [getSize_eq_sum, getSize_eq_sum, hentries, List.map_map, List.map_map]
    exact congrArg List.sum (List.map_congr_left fun way _ => (hvisit way).length_eq)

/-- Three keys in two ways of size four, dumped as `std::uint64_t`, hashed as themselves and mixed
by the identity: `2` goes to the way `0`, `1` and `3` to the way `1`. -/
theorem write_read_same_pairs_three_keys :
    let hash : {x : Int // IntType.uint64.InRange x} → UInt64 := fun x => x.1.toNat.toUInt64
    let readU64 : Reader {x : Int // IntType.uint64.InRange x} := Dump.read (.integer .uint64)
    let d : NWayLru {x : Int // IntType.uint64.InRange x} {x : Int // IntType.uint64.InRange x} :=
      ⟨(List.replicate 2 (LruBase.new 1)).map (·.setMaxSize 4), hash⟩
    let c := ((d.put id ⟨1, by decide⟩ ⟨10, by decide⟩).put id ⟨2, by decide⟩ ⟨20, by decide⟩).put id
      ⟨3, by decide⟩ ⟨30, by decide⟩
    ∃ d' : NWayLru {x : Int // IntType.uint64.InRange x} {x : Int // IntType.uint64.InRange x},
      (d.read id readU64 readU64).run ([2, 1, 2, 20, 2, 1, 10, 3, 30] ++ []) = .ok (d', []) ∧
        d'.ways.map LruBase.entries = c.ways.map LruBase.entries ∧
        (∀ key validator, (d'.get id key validator).1 = (c.get id key validator).1) ∧
        d'.getSize = c.getSize := by
  dsimp only
  exact write_read_same_pairs (T := {x : Int // IntType.uint64.InRange x})
    (U := {x : Int // IntType.uint64.InRange x}) (w := 2) (s := 4)
    (.put _ _ (.put _ _ (.put _ _ (.new rfl))))
    rfl (by norm_num) (by norm_num) (readsBack_read (.integer .uint64))
    (readsBack_read (.integer .uint64)) (fun _ => List.Perm.refl _) rfl []

end RoundTrip

end NWayLru

end Cache

end Userver
