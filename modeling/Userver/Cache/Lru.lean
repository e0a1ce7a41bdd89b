import Userver.Lib.LruList
import Userver.Lib.Machine

/-!
# `cache::impl::LruBase`

`LruBase` (`lru.hpp`) keeps its nodes in two intrusive containers at once: the hash set `map_`,
for lookup by key, and the list `list_`, from the least to the most recently used.  Every member
function links a node into both or unlinks it from both (`InsertNode` under its `UASSERT(ok)`:
the key is not linked yet), so the model keeps `list_` only: `map_.find(key)` is the first node
of `list_` with the key, `map_.size()` is its length, and `buckets_.size()` is the capacity.

`LruBase` refines a recency list (`LruList`): started from a new cache and a new list of the same
capacity, the two answer every list of calls alike, hold the same pairs in the same order, and
the cache holds at most its capacity (`lruBase_refines_lruList`).  `InsertNode` is not among those
calls: it links its node whatever the size, so a node taken out and put back after the cache
has refilled makes it hold more than its capacity (`reinsert_after_refill_exceeds_capacity`).
-/

namespace Userver

namespace Cache

namespace Impl

/-- `LruNode<Key, Value>`. -/
structure LruNode (T U : Type) where
  key : T
  value : U
  deriving DecidableEq, Repr

/-- The pair a node holds. -/
def LruNode.toPair {T U : Type} (node : LruNode T U) : T × U := (node.key, node.value)

/-- `LruBase<T, U>`: `buckets_.size()` and the nodes of `list_`, from the least to the most
recently used. -/
structure LruBase (T U : Type) where
  buckets : Nat
  list : List (LruNode T U)
  deriving DecidableEq, Repr

namespace LruBase

variable {T U : Type}

/-! ## The member functions -/

/-- The constructor: `buckets_(max_size ? max_size : 1)`. -/
def new (maxSize : Nat) : LruBase T U := ⟨if maxSize = 0 then 1 else maxSize, []⟩

/-- `InsertNode(node)`: the node linked at the most recent end, whatever the size. -/
def insertNode (s : LruBase T U) (node : LruNode T U) : LruBase T U :=
  { s with list := s.list ++ [node] }

/-- `ExtractNode(list_.begin())`: the least recently used node, unlinked. -/
def extractFront (s : LruBase T U) : Option (LruNode T U) × LruBase T U :=
  (s.list.head?, { s with list := s.list.tail })

/-- `Add(key, value)`: a new node while there is room; otherwise the least recently used node is
unlinked, given the key and the value, and linked again. -/
def add (s : LruBase T U) (key : T) (value : U) : LruBase T U :=
  if s.list.length < s.buckets then s.insertNode ⟨key, value⟩
  else s.extractFront.2.insertNode ⟨key, value⟩

/-- `GetLeastUsedKey()`. -/
def getLeastUsedKey (s : LruBase T U) : Option T := s.list.head?.map LruNode.key

/-- `GetLeastUsedValue()`. -/
def getLeastUsedValue (s : LruBase T U) : Option U := s.list.head?.map LruNode.value

/-- `ExtractLeastUsedNode()`. -/
def extractLeastUsedNode (s : LruBase T U) : Option (LruNode T U) × LruBase T U :=
  if s.list.isEmpty then (none, s) else s.extractFront

/-- The loop `while (map_.size() > new_max_size) ExtractNode(list_.begin());`. -/
def evictWhileAbove (newMaxSize : Nat) : List (LruNode T U) → List (LruNode T U)
  | [] => []
  | node :: rest => if rest.length + 1 > newMaxSize then evictWhileAbove newMaxSize rest else node :: rest

/-- `SetMaxSize(new_max_size)`: `0` is taken as `1`; nothing changes at the same size, and
otherwise the least recently used nodes leave until the rest fits. -/
def setMaxSize (s : LruBase T U) (newMaxSize : Nat) : LruBase T U :=
  let newMaxSize := if newMaxSize = 0 then 1 else newMaxSize
  if s.buckets = newMaxSize then s
  else ⟨newMaxSize, evictWhileAbove newMaxSize s.list⟩

/-- `Clear()`: `while (!list_.empty()) ExtractNode(list_.begin());`. -/
def clear (s : LruBase T U) : LruBase T U := { s with list := evictWhileAbove 0 s.list }

/-- `GetSize()`: `map_.size()`. -/
def getSize (s : LruBase T U) : Nat := s.list.length

/-- `GetCapacity()`: `buckets_.size()`. -/
def getCapacity (s : LruBase T U) : Nat := s.buckets

/-! ## The member functions that look up a key -/

section KeyLookup

variable [DecidableEq T]

/-- `map_.find(key)`. -/
def find (s : LruBase T U) (key : T) : Option (LruNode T U) :=
  s.list.find? fun node => node.key = key

/-- `ExtractNode(list_.iterator_to(*it))` for the node `map_.find(key)` found. -/
def unlink (s : LruBase T U) (key : T) : LruBase T U :=
  { s with list := s.list.eraseP fun node => node.key = key }

/-- `MarkRecentlyUsed(node)`: the node spliced to the most recent end. -/
def markRecentlyUsed (s : LruBase T U) (node : LruNode T U) : LruBase T U :=
  { s with list := s.list.eraseP (fun n => n.key = node.key) ++ [node] }

/-- `Put(key, value)`: the new value in the node of the key, which becomes the most recently
used, or `Add`; `true` for a new key. -/
def put (s : LruBase T U) (key : T) (value : U) : Bool × LruBase T U :=
  match s.find key with
  | some node => (false, s.markRecentlyUsed { node with value := value })
  | none => (true, s.add key value)

/-- `GetTransparentImpl(key)`: the value of the key, which becomes the most recently used. -/
def getTransparentImpl (s : LruBase T U) (key : T) : Option U × LruBase T U :=
  match s.find key with
  | some node => (some node.value, s.markRecentlyUsed node)
  | none => (none, s)

/-- `Get(key)`; `GetTransparent` is the same call on a `std::string_view`. -/
def get (s : LruBase T U) (key : T) : Option U × LruBase T U := s.getTransparentImpl key

/-- `Emplace(key, args...)`, with the value `U{args...}`: the value there, or the new one.
Without a move assignment (`std::is_move_assignable_v<U>` false) the new node is made before the
least recently used one is unlinked, instead of reusing it as `Add` does. -/
def emplace (moveAssignable : Bool) (s : LruBase T U) (key : T) (value : U) :
    U × LruBase T U :=
  match s.get key with
  | (some existing, s) => (existing, s)
  | (none, s) =>
    if moveAssignable then (value, s.add key value)
    else
      let s := if s.list.length ≥ s.buckets then s.extractFront.2 else s
      (value, s.insertNode ⟨key, value⟩)

/-- `Erase(key)`. -/
def erase (s : LruBase T U) (key : T) : LruBase T U :=
  match s.find key with
  | none => s
  | some _ => s.unlink key

/-- `ExtractNode(key)`. -/
def extractNode (s : LruBase T U) (key : T) : Option (LruNode T U) × LruBase T U :=
  match s.find key with
  | none => (none, s)
  | some node => (some node, s.unlink key)

end KeyLookup

/-! ## The pairs the cache holds, and the refinement relation -/

/-- The pairs of `list_`, from the least to the most recently used. -/
def entries (s : LruBase T U) : List (T × U) := s.list.map LruNode.toPair

theorem keys_entries (s : LruBase T U) : s.entries.map Prod.fst = s.list.map LruNode.key := by
  simp only [entries, List.map_map]
  rfl

@[simp] theorem getSize_eq (s : LruBase T U) : s.getSize = s.entries.length := by
  simp [getSize, entries]

/-- The loop of `SetMaxSize` keeps the `newMaxSize` most recently used nodes. -/
theorem evictWhileAbove_eq_drop (newMaxSize : Nat) (list : List (LruNode T U)) :
    evictWhileAbove newMaxSize list = list.drop (list.length - newMaxSize) := by
  induction list with
  | nil => rw [evictWhileAbove, List.drop_nil]
  | cons node rest ih =>
    rw [evictWhileAbove]
    split
    · rename_i hgt
      rw [ih, List.length_cons, show rest.length + 1 - newMaxSize = rest.length - newMaxSize + 1 by
        omega, List.drop_succ_cons]
    · rename_i hle
      rw [List.length_cons, show rest.length + 1 - newMaxSize = 0 by omega, List.drop_zero]

/-- The cache holds the pairs of the recency list, in the same order, and has its capacity. -/
def Refines (s : LruBase T U) (l : LruList T U) : Prop := s.entries = l.entries ∧ s.buckets = l.cap

theorem Refines.keys_nodup {s : LruBase T U} {l : LruList T U} (h : Refines s l) :
    (s.list.map LruNode.key).Nodup := by
  rw [← keys_entries, h.1]
  exact l.keys_nodup

/-- `InsertNode` links its node whatever the size of the cache. -/
theorem insertNode_getSize (s : LruBase T U) (node : LruNode T U) :
    (s.insertNode node).getSize = s.getSize + 1 := by
  simp [insertNode, getSize]

theorem add_buckets (s : LruBase T U) (key : T) (value : U) :
    (s.add key value).buckets = s.buckets := by
  unfold add
  split <;> rfl

/-- `Add` keeps some of the nodes in order, and the new one after them. -/
theorem add_list (s : LruBase T U) (key : T) (value : U) :
    ∃ kept, List.Sublist kept s.list ∧ (s.add key value).list = kept ++ [⟨key, value⟩] := by
  unfold add
  split
  · exact ⟨s.list, List.Sublist.refl _, rfl⟩
  · exact ⟨s.list.tail, List.tail_sublist _, rfl⟩

/-- On an empty cache `ExtractLeastUsedNode` returns nothing, as `ExtractNode(list_.begin())`
would if it were called. -/
theorem extractLeastUsedNode_eq (s : LruBase T U) : s.extractLeastUsedNode = s.extractFront := by
  unfold extractLeastUsedNode
  split
  · rename_i hempty
    obtain ⟨buckets, list⟩ := s
    have hnil : list = [] := List.isEmpty_iff.1 hempty
    subst hnil
    rfl
  · rfl

section Front

variable {s : LruBase T U} {l : LruList T U}

theorem Refines.extractLeastUsedNode (h : Refines s l) :
    s.extractLeastUsedNode.1.map LruNode.toPair = l.popFront.1 ∧
      Refines s.extractLeastUsedNode.2 l.popFront.2 := by
  rw [extractLeastUsedNode_eq, LruList.popFront_fst, ← h.1]
  refine ⟨List.head?_map.symm, ?_, h.2⟩
  change s.list.tail.map _ = _
  rw [List.map_tail, LruList.popFront_entries, ← h.1]
  rfl

theorem Refines.setMaxSize (h : Refines s l) (newMaxSize : ℕ+) :
    Refines (s.setMaxSize newMaxSize) (l.shrink newMaxSize) := by
  have hlen : s.list.length = l.entries.length := by
    rw [← List.length_map (f := LruNode.toPair)]
    exact congrArg List.length h.1
  unfold LruBase.setMaxSize
  simp only [PNat.ne_zero, if_false]
  split
  · -- the same size: the list already fits
    rename_i hsame
    refine ⟨?_, hsame⟩
    have hfit : l.entries.length - newMaxSize = 0 := by
      have hle := l.length_le
      have hcap := h.2
      omega
    rw [LruList.shrink_entries, hfit, List.drop_zero]
    exact h.1
  · refine ⟨?_, rfl⟩
    change (evictWhileAbove _ s.list).map _ = _
    rw [evictWhileAbove_eq_drop, List.map_drop, LruList.shrink_entries, hlen]
    exact congrArg (List.drop _) h.1

theorem Refines.clear (h : Refines s l) : Refines s.clear l.clear := by
  refine ⟨?_, h.2⟩
  change (evictWhileAbove 0 s.list).map _ = _
  rw [evictWhileAbove_eq_drop, Nat.sub_zero, List.drop_length, List.map_nil]
  rfl

end Front

variable [DecidableEq T]

/-- `map_.find(key)` finds the node of the key with the value the pairs give it. -/
theorem find_eq_lookup (s : LruBase T U) (key : T) :
    s.find key = (s.entries.lookup key).map (LruNode.mk key) := by
  obtain ⟨buckets, list⟩ := s
  simp only [find, entries]
  induction list with
  | nil => rfl
  | cons node rest ih =>
    rw [List.find?_cons, List.map_cons, LruNode.toPair, List.lookup_cons]
    by_cases hkey : node.key = key
    · subst hkey
      simp
    · have hne : (key == node.key) = false := by simpa using Ne.symm hkey
      simp only [hkey, decide_false, hne]
      exact ih

/-- Unlinking the node of a key takes its pair out, when no two nodes share a key. -/
theorem map_eraseP_key {list : List (LruNode T U)} (hnd : (list.map LruNode.key).Nodup)
    (key : T) :
    (list.eraseP fun n => n.key = key).map LruNode.toPair =
      LruList.without key (list.map LruNode.toPair) := by
  induction list with
  | nil => rfl
  | cons node rest ih =>
    rw [List.map_cons, List.nodup_cons] at hnd
    rw [List.eraseP_cons, List.map_cons]
    by_cases hkey : node.key = key
    · -- the first node is the key's: no other pair has the key
      subst hkey
      have hrest : node.key ∉ (rest.map LruNode.toPair).map Prod.fst := by
        rw [List.map_map]
        exact hnd.1
      simp only [decide_true, cond_true, LruList.without, LruNode.toPair, ne_eq, not_true_eq_false,
        decide_false, Bool.false_eq_true, not_false_eq_true, List.filter_cons_of_neg]
      exact (LruList.without_of_not_mem hrest).symm
    · simp only [hkey, decide_false, cond_false, List.map_cons, ih hnd.2, LruList.without,
        LruNode.toPair, ne_eq, not_false_eq_true, decide_true, List.filter_cons_of_pos]

/-! ## What the member functions do to the pairs -/

/-- `Erase` unlinks the node of the key, if there is one. -/
theorem erase_eq_unlink (s : LruBase T U) (key : T) : s.erase key = s.unlink key := by
  unfold erase
  split
  · rename_i hfind
    -- no node has the key, so unlinking one changes nothing
    have hnone : ∀ node ∈ s.list, ¬decide (node.key = key) = true := by
      simpa using List.find?_eq_none.1 hfind
    rw [unlink, List.eraseP_of_forall_not hnone]
  · rfl

/-- `ExtractNode(key)` returns the node `map_.find(key)` finds and unlinks it. -/
theorem extractNode_eq (s : LruBase T U) (key : T) :
    s.extractNode key = (s.find key, s.unlink key) := by
  unfold extractNode
  split
  · rename_i hfind
    rw [hfind, ← erase_eq_unlink, erase, hfind]
  · rename_i node hfind
    rw [hfind]

/-- Without a move assignment `Emplace` ends as with one. -/
theorem emplace_false_eq_true (s : LruBase T U) (key : T) (value : U) :
    s.emplace false key value = s.emplace true key value := by
  unfold emplace
  split
  · rfl
  · rename_i s' _
    simp only [Bool.false_eq_true, if_false, if_true, add]
    -- the same test of the size, the other way round
    by_cases hfull : s'.buckets ≤ s'.list.length
    · rw [if_pos hfull, if_neg (Nat.not_lt.2 hfull)]
    · rw [if_neg hfull, if_pos (Nat.lt_of_not_le hfull)]

theorem emplace_eq_emplace_true (s : LruBase T U) (moveAssignable : Bool) (key : T) (value : U) :
    s.emplace moveAssignable key value = s.emplace true key value := by
  cases moveAssignable
  · exact emplace_false_eq_true s key value
  · rfl

/-- A key `Add` brings in is found with its value. -/
theorem find_add_self {s : LruBase T U} {key : T} (hnone : s.find key = none) (value : U) :
    (s.add key value).find key = some ⟨key, value⟩ := by
  obtain ⟨kept, hsub, hlist⟩ := s.add_list key value
  have hkept : kept.find? (fun node => node.key = key) = none :=
    List.find?_eq_none.2 fun node hnode => List.find?_eq_none.1 hnone node (hsub.subset hnode)
  rw [find, hlist, List.find?_append, hkept, List.find?_singleton]
  simp

theorem get_of_find_none {s : LruBase T U} {key : T} (hnone : s.find key = none) :
    s.get key = (none, s) := by
  rw [get, getTransparentImpl, hnone]

theorem get_of_find_some {s : LruBase T U} {key : T} {node : LruNode T U}
    (hnode : s.find key = some node) : s.get key = (some node.value, s.markRecentlyUsed node) := by
  rw [get, getTransparentImpl, hnode]

/-- `Emplace` of a key that is not there is `Add`, and returns the new value. -/
theorem emplace_of_find_none {s : LruBase T U} {key : T} (hnone : s.find key = none)
    (moveAssignable : Bool) (value : U) :
    s.emplace moveAssignable key value = (value, s.add key value) := by
  rw [emplace_eq_emplace_true, emplace, get_of_find_none hnone]
  rfl

/-! ## `LruBase` refines a recency list -/

section Refines

variable {s : LruBase T U} {l : LruList T U}

theorem Refines.find_eq (h : Refines s l) (key : T) :
    s.find key = (l.lookup key).map (LruNode.mk key) := by
  rw [find_eq_lookup, h.1]
  rfl

theorem Refines.unlink (h : Refines s l) (key : T) : Refines (s.unlink key) (l.erase key) := by
  refine ⟨?_, h.2⟩
  change (s.list.eraseP _).map _ = _
  rw [map_eraseP_key h.keys_nodup, LruList.erase_entries]
  exact congrArg (LruList.without key) h.1

/-- A key that is there moves to the most recent end, as `use` moves it. -/
theorem Refines.markRecentlyUsed (h : Refines s l) {key : T} (hkey : l.lookup key ≠ none)
    (value : U) : Refines (s.markRecentlyUsed ⟨key, value⟩) (l.use key value) := by
  have hmem : key ∈ l.entries.map Prod.fst := by
    by_contra hnot
    exact hkey (LruList.lookup_eq_none_iff.2 hnot)
  refine ⟨?_, h.2⟩
  change (s.list.eraseP _ ++ _).map _ = _
  rw [List.map_append, map_eraseP_key h.keys_nodup, LruList.use_entries_of_mem hmem]
  exact congrArg (LruList.without key · ++ [(key, value)]) h.1

/-- `Add` of a new key is `use`: the least recently used pair leaves when the cache is full. -/
theorem Refines.add (h : Refines s l) {key : T} (hkey : l.lookup key = none) (value : U) :
    Refines (s.add key value) (l.use key value) := by
  have hlen : s.list.length = l.entries.length := by
    rw [← List.length_map (f := LruNode.toPair)]
    exact congrArg List.length h.1
  refine ⟨?_, (add_buckets s key value).trans h.2⟩
  rw [LruList.use_entries_of_not_mem (LruList.lookup_eq_none_iff.1 hkey), LruList.room,
    LruBase.add]
  split
  · rename_i hlt
    rw [if_pos (by rw [← hlen, ← h.2]; exact hlt)]
    change (s.list ++ _).map _ = _
    rw [List.map_append, ← h.1]
    rfl
  · rename_i hge
    rw [if_neg (by rw [← hlen, ← h.2]; exact hge)]
    change (s.list.tail ++ _).map _ = _
    rw [List.map_append, List.map_tail, ← h.1]
    rfl

theorem Refines.get_of_none (h : Refines s l) {key : T} (hkey : l.lookup key = none) :
    s.get key = (none, s) := by
  rw [get, getTransparentImpl, h.find_eq, hkey]
  rfl

theorem Refines.get_of_some (h : Refines s l) {key : T} {v : U} (hkey : l.lookup key = some v) :
    s.get key = (some v, s.markRecentlyUsed ⟨key, v⟩) := by
  rw [get, getTransparentImpl, h.find_eq, hkey]
  rfl

theorem Refines.put (h : Refines s l) (key : T) (value : U) :
    (s.put key value).1 = (l.lookup key).isNone ∧ Refines (s.put key value).2 (l.use key value) := by
  unfold LruBase.put
  rw [h.find_eq]
  cases hkey : l.lookup key with
  | none => exact ⟨rfl, h.add hkey value⟩
  | some old => exact ⟨rfl, h.markRecentlyUsed (by simp [hkey]) value⟩

theorem Refines.get (h : Refines s l) (key : T) :
    (s.get key).1 = l.lookup key ∧ Refines (s.get key).2 ((l.lookup key).elim l (l.use key)) := by
  cases hkey : l.lookup key with
  | none =>
    rw [h.get_of_none hkey]
    exact ⟨rfl, h⟩
  | some v =>
    rw [h.get_of_some hkey]
    exact ⟨rfl, h.markRecentlyUsed (by simp [hkey]) v⟩

theorem Refines.emplace (h : Refines s l) (moveAssignable : Bool) (key : T) (value : U) :
    (s.emplace moveAssignable key value).1 = (l.lookup key).getD value ∧
      Refines (s.emplace moveAssignable key value).2 (l.use key ((l.lookup key).getD value)) := by
  rw [emplace_eq_emplace_true, LruBase.emplace]
  cases hkey : l.lookup key with
  | none =>
    rw [h.get_of_none hkey]
    exact ⟨rfl, h.add hkey value⟩
  | some v =>
    rw [h.get_of_some hkey]
    exact ⟨rfl, h.markRecentlyUsed (by simp [hkey]) v⟩

theorem Refines.extractNode (h : Refines s l) (key : T) :
    (s.extractNode key).1.map LruNode.toPair = (l.lookup key).map (fun v => (key, v)) ∧
      Refines (s.extractNode key).2 (l.erase key) := by
  rw [extractNode_eq, h.find_eq, Option.map_map]
  exact ⟨rfl, h.unlink key⟩

end Refines

end LruBase

/-- The calls of `LruBase` the refinement covers.  `SetMaxSize` takes a positive size, as its
`UASSERT` asks. -/
inductive LruCall (T U : Type) where
  | put (key : T) (value : U)
  | get (key : T)
  | emplace (key : T) (value : U)
  | erase (key : T)
  | extractNode (key : T)
  | extractLeastUsedNode
  | setMaxSize (newMaxSize : ℕ+)
  | clear
  | getLeastUsedKey
  | getLeastUsedValue
  | getSize
  | getCapacity

/-- What a call returns: nothing, `Put`'s flag, a value (`U*`), a key, a node (as its pair) or a
size. -/
inductive LruAnswer (T U : Type) where
  | done
  | isNew (b : Bool)
  | value (v : Option U)
  | key (k : Option T)
  | node (n : Option (T × U))
  | size (n : Nat)

variable {T U : Type} [DecidableEq T]

/-- What each call means on a recency list: `Put` and `Get` use the key with the new or the
present value, `Emplace` with the present value if there is one. -/
def lruSpecStep (l : LruList T U) : LruCall T U → LruAnswer T U × LruList T U
  | .put key value => (.isNew (l.lookup key).isNone, l.use key value)
  | .get key => (.value (l.lookup key), (l.lookup key).elim l (l.use key))
  | .emplace key value =>
    (.value (some ((l.lookup key).getD value)), l.use key ((l.lookup key).getD value))
  | .erase key => (.done, l.erase key)
  | .extractNode key => (.node ((l.lookup key).map fun v => (key, v)), l.erase key)
  | .extractLeastUsedNode => (.node l.popFront.1, l.popFront.2)
  | .setMaxSize newMaxSize => (.done, l.shrink newMaxSize)
  | .clear => (.done, l.clear)
  | .getLeastUsedKey => (.key (l.entries.head?.map Prod.fst), l)
  | .getLeastUsedValue => (.value (l.entries.head?.map Prod.snd), l)
  | .getSize => (.size l.entries.length, l)
  | .getCapacity => (.size l.cap, l)

namespace LruBase

/-- One call on the cache. -/
def step (moveAssignable : Bool) (s : LruBase T U) : LruCall T U → LruAnswer T U × LruBase T U
  | .put key value => (.isNew (s.put key value).1, (s.put key value).2)
  | .get key => (.value (s.get key).1, (s.get key).2)
  | .emplace key value =>
    (.value (some (s.emplace moveAssignable key value).1), (s.emplace moveAssignable key value).2)
  | .erase key => (.done, s.erase key)
  | .extractNode key =>
    (.node ((s.extractNode key).1.map LruNode.toPair), (s.extractNode key).2)
  | .extractLeastUsedNode =>
    (.node (s.extractLeastUsedNode.1.map LruNode.toPair), s.extractLeastUsedNode.2)
  | .setMaxSize newMaxSize => (.done, s.setMaxSize newMaxSize)
  | .clear => (.done, s.clear)
  | .getLeastUsedKey => (.key s.getLeastUsedKey, s)
  | .getLeastUsedValue => (.value s.getLeastUsedValue, s)
  | .getSize => (.size s.getSize, s)
  | .getCapacity => (.size s.getCapacity, s)

/-- One call answers as on the recency list and keeps the two related. -/
theorem step_refines (moveAssignable : Bool) {s : LruBase T U} {l : LruList T U}
    (h : Refines s l) (call : LruCall T U) :
    (s.step moveAssignable call).1 = (lruSpecStep l call).1 ∧
      Refines (s.step moveAssignable call).2 (lruSpecStep l call).2 := by
  cases call with
  | put key value =>
    obtain ⟨hanswer, hnext⟩ := h.put key value
    exact ⟨congrArg LruAnswer.isNew hanswer, hnext⟩
  | get key =>
    obtain ⟨hanswer, hnext⟩ := h.get key
    exact ⟨congrArg LruAnswer.value hanswer, hnext⟩
  | emplace key value =>
    obtain ⟨hanswer, hnext⟩ := h.emplace moveAssignable key value
    exact ⟨congrArg (LruAnswer.value ∘ some) hanswer, hnext⟩
  | erase key =>
    refine ⟨rfl, ?_⟩
    change Refines (s.erase key) (l.erase key)
    rw [erase_eq_unlink]
    exact h.unlink key
  | extractNode key =>
    obtain ⟨hanswer, hnext⟩ := h.extractNode key
    exact ⟨congrArg LruAnswer.node hanswer, hnext⟩
  | extractLeastUsedNode =>
    obtain ⟨hanswer, hnext⟩ := h.extractLeastUsedNode
    exact ⟨congrArg LruAnswer.node hanswer, hnext⟩
  | setMaxSize newMaxSize => exact ⟨rfl, h.setMaxSize newMaxSize⟩
  | clear => exact ⟨rfl, h.clear⟩
  | getLeastUsedKey =>
    refine ⟨?_, h⟩
    simp only [step, lruSpecStep, getLeastUsedKey, ← h.1, entries, List.head?_map, Option.map_map]
    rfl
  | getLeastUsedValue =>
    refine ⟨?_, h⟩
    simp only [step, lruSpecStep, getLeastUsedValue, ← h.1, entries, List.head?_map,
      Option.map_map]
    rfl
  | getSize => exact ⟨by simp only [step, lruSpecStep, getSize_eq, h.1], h⟩
  | getCapacity => exact ⟨by simp only [step, lruSpecStep, getCapacity, h.2], h⟩

end LruBase

/-- From a new cache and a new recency list of the same capacity, every list of calls gets the
same answers from both and leaves them with the same pairs in the same order; and the cache then
holds at most its capacity. -/
theorem lruBase_refines_lruList (moveAssignable : Bool) (maxSize : ℕ+)
    (calls : List (LruCall T U)) :
    let impl : List (LruAnswer T U) × LruBase T U :=
      Machine.run (LruBase.step moveAssignable) (LruBase.new maxSize) calls
    let spec : List (LruAnswer T U) × LruList T U :=
      Machine.run lruSpecStep (LruList.new maxSize) calls
    impl.1 = spec.1 ∧ impl.2.entries = spec.2.entries ∧ impl.2.getSize ≤ impl.2.getCapacity := by
  intro impl spec
  have hnew : LruBase.Refines (LruBase.new maxSize : LruBase T U) (LruList.new maxSize) :=
    ⟨rfl, by simp [LruBase.new]⟩
  obtain ⟨hanswers, hend⟩ := Machine.run_lockstep LruBase.Refines
    (fun _ _ call h => LruBase.step_refines moveAssignable h call) calls _ _ hnew
  refine ⟨hanswers, hend.1, ?_⟩
  -- the recency list holds at most its capacity
  rw [LruBase.getSize_eq, hend.1, LruBase.getCapacity, hend.2]
  exact spec.2.length_le

/-- A node taken out by `ExtractNode` and put back by `InsertNode` after `Put` has refilled a
cache of capacity one leaves two pairs in it. -/
theorem reinsert_after_refill_exceeds_capacity :
    let cache : LruBase Nat Nat := ((LruBase.new 1).put 1 10).2
    let extracted : Option (LruNode Nat Nat) × LruBase Nat Nat := cache.extractNode 1
    let refilled : LruBase Nat Nat := (extracted.2.put 2 20).2
    extracted.1 = some ⟨1, 10⟩ ∧ (refilled.insertNode ⟨1, 10⟩).getSize = 2 ∧
      (refilled.insertNode ⟨1, 10⟩).getCapacity = 1 := by
  decide

end Impl

end Cache

end Userver
