import Mathlib.Data.List.Nodup
import Mathlib.Data.PNat.Defs

/-!
# Recency lists

The meaning of a least-recently-used cache of capacity `cap`: pairs with distinct keys, from
the least to the most recently used, at most `cap` of them, and `cap ≥ 1`.  The three
invariants are fields of `LruList`, so no operation can break them.

* `use k v` moves the pair of `k`, with the value `v`, to the most recent end; a key that is not
  there comes in at that end, and when the list is full the least recently used pair leaves
  first (`use_entries_of_mem`, `use_entries_of_not_mem`);
* `erase`, `popFront`, `shrink` and `clear` take pairs out.
-/

/-- A recency list of capacity `cap`. -/
structure LruList (α β : Type) where
  /-- The pairs, from the least to the most recently used. -/
  entries : List (α × β)
  cap : Nat
  cap_pos : 0 < cap
  keys_nodup : (entries.map Prod.fst).Nodup
  length_le : entries.length ≤ cap

namespace LruList

variable {α β : Type}

/-! ### Lists of pairs with distinct keys -/

theorem keys_nodup_of_sublist {es es' : List (α × β)} (h : List.Sublist es' es)
    (hnd : (es.map Prod.fst).Nodup) : (es'.map Prod.fst).Nodup :=
  hnd.sublist (h.map Prod.fst)

theorem keys_nodup_concat {es : List (α × β)} {k : α} (v : β) (hnd : (es.map Prod.fst).Nodup)
    (hk : k ∉ es.map Prod.fst) : ((es ++ [(k, v)]).map Prod.fst).Nodup := by
  rw [List.map_append, List.map_singleton, List.nodup_append]
  refine ⟨hnd, List.nodup_singleton k, ?_⟩
  intro a ha b hb
  rw [List.mem_singleton] at hb
  rintro rfl
  rw [hb] at ha
  exact hk ha

/-! ### Operations that need no key comparison -/

/-- An empty list of capacity `cap`. -/
def new (cap : ℕ+) : LruList α β := ⟨[], cap, cap.pos, List.nodup_nil, Nat.zero_le _⟩

/-- The pairs left when one more comes in: all of them, or all but the least recently used one
when the list is full. -/
def room (l : LruList α β) : List (α × β) :=
  if l.entries.length < l.cap then l.entries else l.entries.tail

theorem room_sublist (l : LruList α β) : List.Sublist l.room l.entries := by
  unfold room
  split
  · exact List.Sublist.refl _
  · exact List.tail_sublist _

theorem length_room_lt (l : LruList α β) : l.room.length < l.cap := by
  have hle := l.length_le
  have hpos := l.cap_pos
  unfold room
  split
  · assumption
  · rw [List.length_tail]
    omega

/-- The least recently used pair and the list without it. -/
def popFront (l : LruList α β) : Option (α × β) × LruList α β :=
  (l.entries.head?, ⟨l.entries.tail, l.cap, l.cap_pos,
    keys_nodup_of_sublist (List.tail_sublist _) l.keys_nodup,
    (List.tail_sublist _).length_le.trans l.length_le⟩)

/-- The list with the capacity `n`: its `n` most recently used pairs. -/
def shrink (l : LruList α β) (n : ℕ+) : LruList α β where
  entries := l.entries.drop (l.entries.length - n)
  cap := n
  cap_pos := n.pos
  keys_nodup := keys_nodup_of_sublist (List.drop_sublist _ _) l.keys_nodup
  length_le := by
    rw [List.length_drop]
    omega

/-- The empty list of the same capacity. -/
def clear (l : LruList α β) : LruList α β := ⟨[], l.cap, l.cap_pos, List.nodup_nil, Nat.zero_le _⟩

@[simp] theorem new_entries (cap : ℕ+) : (new cap : LruList α β).entries = [] := rfl
@[simp] theorem new_cap (cap : ℕ+) : (new cap : LruList α β).cap = cap := rfl
@[simp] theorem popFront_fst (l : LruList α β) : l.popFront.1 = l.entries.head? := rfl
@[simp] theorem popFront_entries (l : LruList α β) : l.popFront.2.entries = l.entries.tail := rfl
@[simp] theorem popFront_cap (l : LruList α β) : l.popFront.2.cap = l.cap := rfl
@[simp] theorem shrink_entries (l : LruList α β) (n : ℕ+) :
    (l.shrink n).entries = l.entries.drop (l.entries.length - n) := rfl
@[simp] theorem shrink_cap (l : LruList α β) (n : ℕ+) : (l.shrink n).cap = n := rfl
@[simp] theorem clear_entries (l : LruList α β) : l.clear.entries = [] := rfl
@[simp] theorem clear_cap (l : LruList α β) : l.clear.cap = l.cap := rfl

variable [DecidableEq α]

/-- The pairs whose key is not `k`. -/
def without (k : α) (es : List (α × β)) : List (α × β) := es.filter fun e => e.1 ≠ k

theorem without_sublist (k : α) (es : List (α × β)) : List.Sublist (without k es) es :=
  List.filter_sublist

theorem not_mem_keys_without (k : α) (es : List (α × β)) :
    k ∉ (without k es).map Prod.fst := by
  simp [without]

theorem without_of_not_mem {k : α} {es : List (α × β)} (hk : k ∉ es.map Prod.fst) :
    without k es = es := by
  rw [without, List.filter_eq_self]
  intro e he
  have hne : e.1 ≠ k := fun heq => hk (List.mem_map.2 ⟨e, he, heq⟩)
  simpa using hne

theorem length_without_lt {k : α} {es : List (α × β)} (hk : k ∈ es.map Prod.fst) :
    (without k es).length < es.length := by
  obtain ⟨e, he, rfl⟩ := List.mem_map.1 hk
  exact List.length_filter_lt_length_iff_exists.2 ⟨e, he, by simp⟩

theorem lookup_eq_none_iff {k : α} {es : List (α × β)} :
    es.lookup k = none ↔ k ∉ es.map Prod.fst := by
  simp only [List.lookup_eq_none_iff, bne_iff_ne, ne_eq, List.mem_map, not_exists, not_and]
  exact ⟨fun h e he heq => h e he heq.symm, fun h e he heq => h e he heq.symm⟩

/-- Lists of pairs with distinct keys that hold the same pairs give every key the same value. -/
theorem lookup_eq_of_perm {es es' : List (α × β)} (h : es.Perm es') (hnd : (es.map Prod.fst).Nodup)
    (k : α) : es.lookup k = es'.lookup k := by
  induction h with
  | nil => rfl
  | cons p _ ih =>
    rw [List.map_cons, List.nodup_cons] at hnd
    obtain ⟨a, b⟩ := p
    rw [List.lookup_cons, List.lookup_cons, ih hnd.2]
  | swap p q es =>
    -- the two keys differ, so the order of their pairs does not matter
    obtain ⟨a, b⟩ := p
    obtain ⟨a', b'⟩ := q
    rw [List.map_cons, List.map_cons, List.nodup_cons, List.mem_cons] at hnd
    have hne : a' ≠ a := fun heq => hnd.1 (.inl heq)
    simp only [List.lookup_cons]
    by_cases hka : k = a
    · subst hka
      rw [beq_false_of_ne (Ne.symm hne), beq_self_eq_true]
    · rw [beq_false_of_ne hka]
  | trans h₁ _ ih₁ ih₂ => rw [ih₁ hnd, ih₂ ((h₁.map Prod.fst).nodup_iff.1 hnd)]

/-! ### Operations -/

/-- The value of `k`. -/
def lookup (l : LruList α β) (k : α) : Option β := l.entries.lookup k

/-- The list without the pair of `k`. -/
def erase (l : LruList α β) (k : α) : LruList α β where
  entries := without k l.entries
  cap := l.cap
  cap_pos := l.cap_pos
  keys_nodup := keys_nodup_of_sublist (without_sublist k l.entries) l.keys_nodup
  length_le := (without_sublist k l.entries).length_le.trans l.length_le

/-- `k` used with the value `v`: its pair, or a new one, at the most recent end, after the
least recently used pair when the list without `k` is full. -/
def use (l : LruList α β) (k : α) (v : β) : LruList α β where
  entries := (l.erase k).room ++ [(k, v)]
  cap := l.cap
  cap_pos := l.cap_pos
  keys_nodup := by
    have hsub := (l.erase k).room_sublist
    refine keys_nodup_concat v (keys_nodup_of_sublist hsub (l.erase k).keys_nodup) ?_
    exact fun hk => not_mem_keys_without k l.entries ((hsub.map Prod.fst).subset hk)
  length_le := by
    have hroom := (l.erase k).length_room_lt
    rw [List.length_append, List.length_singleton]
    exact hroom

/-! ### What the operations do to the pairs -/

@[simp] theorem erase_entries (l : LruList α β) (k : α) :
    (l.erase k).entries = without k l.entries := rfl
@[simp] theorem erase_cap (l : LruList α β) (k : α) : (l.erase k).cap = l.cap := rfl
@[simp] theorem use_cap (l : LruList α β) (k : α) (v : β) : (l.use k v).cap = l.cap := rfl

/-- Using a key that is there moves its pair to the most recent end: nothing is evicted. -/
theorem use_entries_of_mem {l : LruList α β} {k : α} (hk : k ∈ l.entries.map Prod.fst) (v : β) :
    (l.use k v).entries = without k l.entries ++ [(k, v)] := by
  have hlt : (without k l.entries).length < l.cap :=
    (length_without_lt hk).trans_le l.length_le
  change (l.erase k).room ++ _ = _
  rw [room, erase_entries, erase_cap, if_pos hlt]

/-- A new key comes in at the most recent end, after the least recently used pair when the list
is full. -/
theorem use_entries_of_not_mem {l : LruList α β} {k : α} (hk : k ∉ l.entries.map Prod.fst)
    (v : β) : (l.use k v).entries = l.room ++ [(k, v)] := by
  change (l.erase k).room ++ _ = _
  simp only [room, erase_entries, erase_cap, without_of_not_mem hk]

/-- A pair of `use k v` was there before, or is the pair of `k` and `v`. -/
theorem mem_use_entries {l : LruList α β} {k : α} {v : β} {p : α × β}
    (hp : p ∈ (l.use k v).entries) : p ∈ l.entries ∨ p = (k, v) := by
  change p ∈ (l.erase k).room ++ [(k, v)] at hp
  rcases List.mem_append.1 hp with hroom | hnew
  · exact .inl ((without_sublist k l.entries).subset ((l.erase k).room_sublist.subset hroom))
  · exact .inr (List.mem_singleton.1 hnew)

end LruList
