import Userver.Lib.OrdMap
import Mathlib.Data.List.Lex

/-!
# Merging the `CLUSTER SLOTS` replies of a Redis cluster

`GetClusterHostsContext::ProcessResponsesOnce` (`sentinel_query.cpp`) merges the `CLUSTER SLOTS`
replies of every host into the shards of the cluster.  The bounds of every interval of every
reply cut the slots `[0, 16384)` into elementary intervals; each elementary interval goes to the
set of hosts (master and slaves) that the most replies give it, and each set of hosts becomes a
shard whose master is the host most replies name as master.

A reply is a `std::map` ordered by `SlotInterval::operator<`, which compares `slot_min` only, and
the reply's hosts for an elementary interval are read with `upper_bound` and one step back: the
entry of the last interval that starts at or before it.  Nothing checks that this interval reaches
the elementary interval, so a reply that has no interval over a slot still votes, for that slot,
for the hosts of its last interval before it (`processResponsesOnce_counts_reply_without_slot`).

Hosts are `ConnectionInfoInt`s, of any linearly ordered type here; a `std::set` of them is a
sorted list, ordered lexicographically as `std::set`'s `operator<` orders it.
-/

namespace Userver

namespace Redis

open OrdMap

/-- `kClusterHashSlots`. -/
def kClusterHashSlots : Nat := 16384

/-- `SlotInterval`: its `operator<` compares `slot_min` only. -/
structure SlotInterval where
  slotMin : Nat
  slotMax : Nat
  deriving DecidableEq, Repr

/-- `MasterSlavesConnInfos`: the slaves are a `std::set`, in increasing order. -/
structure MasterSlavesConnInfos (H : Type) where
  master : H
  slaves : List H
  deriving DecidableEq, Repr

/-- `ClusterSlotsResponse`: a `std::map<SlotInterval, MasterSlavesConnInfos>`, in increasing
`slot_min`. -/
abbrev ClusterSlotsResponse (H : Type) := List (SlotInterval × MasterSlavesConnInfos H)

/-- `ClusterShardHostInfo`. -/
structure ClusterShardHostInfo (H : Type) where
  master : H
  slaves : List H
  /-- A `std::set<SlotInterval>`, in increasing `slot_min`. -/
  slotIntervals : List SlotInterval
  deriving DecidableEq, Repr

/-- One step of the loops that pick `best` and `master`: an item whose count is larger than the
largest so far is the new choice. -/
def firstMaxStep {α : Type} (acc : Nat × Option α) (item : α × Nat) : Nat × Option α :=
  if item.2 > acc.1 then (item.2, some item.1) else acc

/-- The loops that pick `best` and `master`: the first item, in order, with the largest count;
none when every count is `0`. -/
def firstMax {α : Type} (items : List (α × Nat)) : Option α :=
  (items.foldl firstMaxStep (0, none)).2

section FirstMax

variable {α : Type}

/-- While every count is below `c`, so is the largest so far. -/
theorem foldl_firstMaxStep_lt {c : Nat} :
    ∀ (items : List (α × Nat)) (acc : Nat × Option α), acc.1 < c → (∀ e ∈ items, e.2 < c) →
      (items.foldl firstMaxStep acc).1 < c
  | [], _, hacc, _ => hacc
  | e :: items, acc, hacc, hitems => by
    have he := hitems e List.mem_cons_self
    apply foldl_firstMaxStep_lt items _ _ fun e' he' => hitems e' (List.mem_cons_of_mem _ he')
    unfold firstMaxStep
    split <;> assumption

/-- A choice of count `c` stays while no later count is larger. -/
theorem foldl_firstMaxStep_of_le {c : Nat} {k : α} :
    ∀ items : List (α × Nat), (∀ e ∈ items, e.2 ≤ c) →
      items.foldl firstMaxStep (c, some k) = (c, some k)
  | [], _ => rfl
  | e :: items, hitems => by
    have he := hitems e List.mem_cons_self
    rw [List.foldl_cons, firstMaxStep, if_neg (Nat.not_lt.2 he)]
    exact foldl_firstMaxStep_of_le items fun e' he' => hitems e' (List.mem_cons_of_mem _ he')

theorem firstMax_singleton (k : α) (n : Nat) :
    firstMax [(k, n)] = if 0 < n then some k else none := by
  simp only [firstMax, List.foldl_cons, List.foldl_nil, firstMaxStep, gt_iff_lt]
  split <;> rfl

/-- The item with the largest count, when every other count is smaller, is chosen. -/
theorem firstMax_eq_of_max {items : List (α × Nat)} {k : α} {c : Nat} (hc : 0 < c)
    {before after : List (α × Nat)} (hsplit : items = before ++ (k, c) :: after)
    (hbefore : ∀ e ∈ before, e.2 < c) (hafter : ∀ e ∈ after, e.2 ≤ c) :
    firstMax items = some k := by
  have hlt := foldl_firstMaxStep_lt before (0, none) hc hbefore
  have hpick : firstMaxStep (before.foldl firstMaxStep (0, none)) (k, c) = (c, some k) := by
    rw [firstMaxStep, if_pos hlt]
  rw [firstMax, hsplit, List.foldl_append, List.foldl_cons, hpick,
    foldl_firstMaxStep_of_le after hafter]

end FirstMax

variable {H : Type} [LinearOrder H]

/-- The first loop of `ProcessResponsesOnce`: the set of `slot_min` and `slot_max + 1` of every
interval of every reply. -/
def slotBounds (responses : List (ClusterSlotsResponse H)) : List Nat :=
  responses.foldl (fun bounds response => response.foldl (fun bounds e =>
    setInsert (e.1.slotMax + 1) (setInsert e.1.slotMin bounds)) bounds) []

/-- `response.upper_bound(interval)` and one step back, unless it is `begin()`: the entry of the
last interval whose `slot_min` is at most that of `interval`. -/
def entryAtOrBefore (response : ClusterSlotsResponse H) (interval : SlotInterval) :
    Option (MasterSlavesConnInfos H) :=
  (response.takeWhile fun e => e.1.slotMin ≤ interval.slotMin).getLast?.map Prod.snd

/-- `hosts`: the slaves with the master inserted. -/
def MasterSlavesConnInfos.hosts (e : MasterSlavesConnInfos H) : List H :=
  setInsert e.master e.slaves

/-- The loop over the replies for one interval: `shard_stats` counts the host sets the replies
give it, and `master_count` their masters. -/
def countReplies (responses : List (ClusterSlotsResponse H)) (interval : SlotInterval)
    (masterCount : List (H × Nat)) : List (List H × Nat) × List (H × Nat) :=
  responses.foldl (fun acc response =>
    match entryAtOrBefore response interval with
    | some e => (alter e.hosts 0 (· + 1) acc.1, alter e.master 0 (· + 1) acc.2)
    | none => acc) ([], masterCount)

/-- `shard_infos[*best].slot_intervals.insert(interval)`, a set ordered by `slot_min`. -/
def insertInterval (interval : SlotInterval) (intervals : List SlotInterval) :
    List SlotInterval :=
  insertBy SlotInterval.slotMin interval intervals

/-- One bound of the loop over `slot_bounds`: `prev`, `master_count`, and the intervals of each
host set of `shard_infos`.  A nonzero bound closes the elementary interval from `prev`, which goes
to `best` when some reply counted. -/
def assignBound (responses : List (ClusterSlotsResponse H))
    (acc : Nat × List (H × Nat) × List (List H × List SlotInterval)) (bound : Nat) :
    Nat × List (H × Nat) × List (List H × List SlotInterval) :=
  if bound ≠ 0 then
    let interval : SlotInterval := ⟨acc.1, bound - 1⟩
    let counted := countReplies responses interval acc.2.1
    match firstMax counted.1 with
    | some best => (bound, counted.2, alter best [] (insertInterval interval) acc.2.2)
    | none => (bound, counted.2, acc.2.2)
  else (bound, acc.2.1, acc.2.2)

/-- The master of a shard: the first of its hosts, in order, with the largest `master_count`. -/
def chooseMaster (masterCount : List (H × Nat)) (hosts : List H) : Option H :=
  firstMax (hosts.map fun host => (host, (find? host masterCount).getD 0))

/-- A host set of `shard_infos` as a `ClusterShardHostInfo`: its master, the other hosts as
slaves, and its intervals.  `UASSERT(master)`: every host set has a counted master. -/
def toHostInfo (masterCount : List (H × Nat)) (shard : List H × List SlotInterval) :
    Option (ClusterShardHostInfo H) :=
  (chooseMaster masterCount shard.1).map fun master =>
    ⟨master, shard.1.filter (· ≠ master), shard.2⟩

/-- What `ClusterShardHostInfo::operator<` compares: the `slot_min`s of the interval set, in
order, lexicographically. -/
def ClusterShardHostInfo.sortKey (info : ClusterShardHostInfo H) : List Nat :=
  info.slotIntervals.map SlotInterval.slotMin

/-- `ProcessResponsesOnce`, with the replies of `responses_by_id_` in order of server id: the
shards sorted by their intervals, each with the shard name it gets, or none when the replies are
not of a cluster, their bounds do not span `[0, 16384]`, or there are more shards than names. -/
def processResponsesOnce (isNonCluster : Bool) (shardNames : List String)
    (responses : List (ClusterSlotsResponse H)) : List (String × ClusterShardHostInfo H) :=
  if isNonCluster then []
  else
    let bounds := slotBounds responses
    if bounds.head? = some 0 ∧ bounds.getLast? = some kClusterHashSlots then
      let assigned := bounds.foldl (assignBound responses) (0, [], [])
      -- `std::sort`: the shards have disjoint intervals, so any sort gives the same order
      let res := (assigned.2.2.filterMap (toHostInfo assigned.2.1)).insertionSort
        fun x y => x.sortKey ≤ y.sortKey
      if res.length > shardNames.length then [] else shardNames.zip res
    else []

example : processResponsesOnce false ["a", "b"]
    [[(⟨0, 8191⟩, ⟨1, []⟩), (⟨8192, 16383⟩, ⟨2, [3]⟩)],
      [(⟨0, 8191⟩, ⟨1, []⟩), (⟨8192, 16383⟩, ⟨2, [3]⟩)]] =
    [("a", ⟨1, [], [⟨0, 8191⟩]⟩), ("b", ⟨2, [3], [⟨8192, 16383⟩]⟩)] := by
  decide

/-- In a map, the key with the largest count, every other key having a smaller one, is chosen. -/
theorem firstMax_eq_of_find? {κ : Type} [LinearOrder κ] {m : List (κ × Nat)}
    (hnd : (m.map Prod.fst).Nodup) {k : κ} {c : Nat} (hk : find? k m = some c) (hc : 0 < c)
    (hothers : ∀ j v, j ≠ k → find? j m = some v → v < c) : firstMax m = some k := by
  obtain ⟨before, after, hsplit⟩ := List.append_of_mem (mem_of_find? hk)
  -- the other entries have other keys, so their counts are their values in the map
  have hkeys : k ∉ (before ++ after).map Prod.fst := by
    rw [hsplit, List.map_append, List.map_cons, List.nodup_middle, List.nodup_cons,
      ← List.map_append] at hnd
    exact hnd.1
  have hsmall : ∀ e ∈ before ++ after, e.2 < c := by
    intro e he
    have hne : e.1 ≠ k := fun heq => hkeys (heq ▸ List.mem_map_of_mem he)
    have hmem : e ∈ m := by
      rw [hsplit]
      rcases List.mem_append.1 he with he | he
      · exact List.mem_append_left _ he
      · exact List.mem_append_right _ (List.mem_cons_of_mem _ he)
    exact hothers e.1 e.2 hne (find?_of_mem hnd hmem)
  exact firstMax_eq_of_max hc hsplit (fun e he => hsmall e (List.mem_append_left _ he))
    fun e he => Nat.le_of_lt (hsmall e (List.mem_append_right _ he))

theorem assignBound_zero (responses : List (ClusterSlotsResponse H))
    (acc : Nat × List (H × Nat) × List (List H × List SlotInterval)) :
    assignBound responses acc 0 = (0, acc.2.1, acc.2.2) := rfl

/-- A nonzero bound whose interval the replies give most often to `best` adds the interval to
`best`'s. -/
theorem assignBound_of_firstMax {responses : List (ClusterSlotsResponse H)}
    {acc : Nat × List (H × Nat) × List (List H × List SlotInterval)} {bound : Nat}
    (hbound : bound ≠ 0) {stats : List (List H × Nat)} {masterCount : List (H × Nat)}
    (hcount : countReplies responses ⟨acc.1, bound - 1⟩ acc.2.1 = (stats, masterCount))
    {best : List H} (hbest : firstMax stats = some best) :
    assignBound responses acc bound =
      (bound, masterCount, alter best [] (insertInterval ⟨acc.1, bound - 1⟩) acc.2.2) := by
  simp only [assignBound, hbound, ne_eq, not_false_eq_true, if_true, hcount, hbest]

/-! ## A reply without the slot still counts -/

section Gap

variable (a b : H)

omit [LinearOrder H] in
/-- A reply of one interval counts, for an elementary interval, the hosts of that interval when
it starts at or before it, whether or not it reaches it. -/
theorem entryAtOrBefore_singleton (interval : SlotInterval) (e : MasterSlavesConnInfos H)
    (target : SlotInterval) :
    entryAtOrBefore [(interval, e)] target =
      if interval.slotMin ≤ target.slotMin then some e else none := by
  unfold entryAtOrBefore
  split <;> simp_all

theorem hosts_of_slaves_nil (x : H) : (MasterSlavesConnInfos.hosts ⟨x, []⟩ : List H) = [x] := by
  simp [MasterSlavesConnInfos.hosts, setInsert, insertBy]

/-- The votes for the host sets when the replies give `[a]`, `[b]` and `[b]`. -/
def gapStats : List (List H × Nat) :=
  alter [b] 0 (· + 1) (alter [b] 0 (· + 1) (alter [a] 0 (· + 1) []))

/-- The masters counted for one interval when the replies name `a`, `b` and `b`. -/
def gapMasters (masterCount : List (H × Nat)) : List (H × Nat) :=
  alter b 0 (· + 1) (alter b 0 (· + 1) (alter a 0 (· + 1) masterCount))

/-- Every reply has an interval starting at slot `0`, so every reply counts for every elementary
interval. -/
theorem countReplies_gap (target : SlotInterval) (masterCount : List (H × Nat)) :
    countReplies [[(⟨0, 16383⟩, ⟨a, []⟩)], [(⟨0, 99⟩, ⟨b, []⟩)], [(⟨0, 99⟩, ⟨b, []⟩)]] target
      masterCount = (gapStats a b, gapMasters a b masterCount) := by
  simp only [countReplies, List.foldl_cons, List.foldl_nil, entryAtOrBefore_singleton,
    Nat.zero_le, if_true, hosts_of_slaves_nil]
  rfl

/-- Two replies give `[b]` and one `[a]`: `[b]` wins, whether or not `a = b`. -/
theorem firstMax_gapStats : firstMax (gapStats a b) = some [b] := by
  have hnd : ((gapStats a b).map Prod.fst).Nodup :=
    keys_nodup_alter (keys_nodup_alter (keys_nodup_alter (by simp) _ _ _) _ _ _) _ _ _
  by_cases hab : a = b
  · subst hab
    refine firstMax_eq_of_find? hnd (c := 3) ?_ (by decide) ?_
    · simp [gapStats, find?_alter]
    · intro j v hj hv
      simp [gapStats, find?_alter, hj] at hv
  · have hne : [a] ≠ [b] := by simpa using hab
    refine firstMax_eq_of_find? hnd (c := 2) ?_ (by decide) ?_
    · simp [gapStats, find?_alter, Ne.symm hab]
    · intro j v hj hv
      simp only [gapStats, find?_alter, hj, if_false] at hv
      split at hv
      · cases hv
        simp
      · simp at hv

theorem chooseMaster_gapMasters (masterCount : List (H × Nat)) :
    chooseMaster (gapMasters a b masterCount) [b] = some b := by
  rw [chooseMaster, List.map_singleton, firstMax_singleton, gapMasters, find?_alter, if_pos rfl]
  simp

/-- With the whole range held by `a` in one reply and only `[0, 99]` held by `b` in two others,
the slots from `100` on, which no reply but the first holds, go to the shard of `b` too, and `a`
is in no shard. -/
theorem processResponsesOnce_counts_reply_without_slot (name : String) (names : List String) :
    processResponsesOnce false (name :: names)
        [[(⟨0, 16383⟩, ⟨a, []⟩)], [(⟨0, 99⟩, ⟨b, []⟩)], [(⟨0, 99⟩, ⟨b, []⟩)]] =
      [(name, ⟨b, [], [⟨0, 99⟩, ⟨100, 16383⟩]⟩)] := by
  have hbounds : slotBounds
      [[(⟨0, 16383⟩, ⟨a, []⟩)], [(⟨0, 99⟩, ⟨b, []⟩)], [(⟨0, 99⟩, ⟨b, []⟩)]] = [0, 100, 16384] := by
    rfl
  -- the two elementary intervals both go to `[b]`
  have hfirst : alter [b] [] (insertInterval ⟨0, 99⟩) [] = [([b], [⟨0, 99⟩])] := by
    simp [alter, insertInterval, insertBy]
  have hsecond : alter [b] [] (insertInterval ⟨100, 16383⟩) [([b], [⟨0, 99⟩])] =
      [([b], [⟨0, 99⟩, ⟨100, 16383⟩])] := by
    simp [alter, find?_cons, insertInterval, insertBy]
  have hassign : [0, 100, 16384].foldl (assignBound
      [[(⟨0, 16383⟩, ⟨a, []⟩)], [(⟨0, 99⟩, ⟨b, []⟩)], [(⟨0, 99⟩, ⟨b, []⟩)]]) (0, [], []) =
      (16384, gapMasters a b (gapMasters a b []), [([b], [⟨0, 99⟩, ⟨100, 16383⟩])]) := by
    rw [List.foldl_cons, assignBound_zero, List.foldl_cons,
      assignBound_of_firstMax (by decide) (countReplies_gap a b _ _) (firstMax_gapStats a b),
      List.foldl_cons,
      assignBound_of_firstMax (by decide) (countReplies_gap a b _ _) (firstMax_gapStats a b),
      List.foldl_nil]
    simp only [Nat.reduceSub]
    rw [hfirst, hsecond]
  have hinfo : toHostInfo (gapMasters a b (gapMasters a b [])) ([b], [⟨0, 99⟩, ⟨100, 16383⟩]) =
      some ⟨b, [], [⟨0, 99⟩, ⟨100, 16383⟩]⟩ := by
    simp [toHostInfo, chooseMaster_gapMasters]
  rw [processResponsesOnce, if_neg Bool.false_ne_true]
  simp only [hbounds, hassign]
  simp [kClusterHashSlots, hinfo]

end Gap

end Redis

end Userver
