import Userver.Http.HeaderMap.Slots

/-!
# Insertion into `header_map::Map`: where it stops and what it keeps

`DoInsertOrModify` probes from the desired slot of the hash and stops at the first slot that is
empty (`perform_vacant`), holds an entry closer to its own desired slot than the probe has walked
(`perform_robinhood`), or holds the key (`perform_occupied`).  `inserterLoop_outcome` says that,
in a table with an empty slot, the probe stops within one round at one of these three
(`InsertOutcome`); `doRobinhoodAtPosition_positions` says that the displacement chain of
`perform_robinhood` moves the occupied slots' values around and adds the new one.

`Indexed` is the index structure of the map: the occupied slots point, one each, to the entries,
and carry their entry's `GetHeaderIndexForInsertion`.  Every outcome keeps it
(`InsertOutcome.indexed`), and for a key that no entry has, the outcome appends the entry and adds
exactly its slot (`InsertOutcome.fresh`).  `rebuildWith_spec` turns a property each insertion of
`Rebuild` keeps into one of the whole `Rebuild`.
-/

namespace Userver

namespace Http

namespace Headers

namespace Map

/-! ## Reading the tables -/

/-- The name of the entry at an index, from the names alone. -/
theorem entryAt_fst (m : Map) (i : Nat) : (m.entryAt i).1 = (m.entries.map Prod.fst).getD i [] := by
  simp only [entryAt, List.getD_eq_getElem?_getD, List.getElem?_map]
  cases m.entries[i]? <;> rfl

/-- Appending an entry leaves the entries before it where they were. -/
theorem entryAt_append_of_lt {entries : List (Bytes × Bytes)} {i : Nat} (hi : i < entries.length)
    (m : Map) (e : Bytes × Bytes) (h : m.entries = entries ++ [e]) :
    m.entryAt i = (entries.getD i ([], [])) := by
  rw [entryAt, h, List.getD_append _ _ _ _ hi]

/-- The entry appended is at the old length. -/
theorem entryAt_append_self (entries : List (Bytes × Bytes)) (m : Map) (e : Bytes × Bytes)
    (h : m.entries = entries ++ [e]) : m.entryAt entries.length = e := by
  rw [entryAt, h, List.getD_append_right _ _ _ _ (Nat.le_refl _)]
  simp

/-! ## The displacement chain -/

/-- What `DoRobinhoodAtPosition`'s chain keeps: the table's length, the occupied values together
with the `Pos` it carries, and an empty slot `p` it has not reached. -/
def RobinhoodInv (L : Nat) (orig : List Pos) (p : Nat) (s : List (Option Pos) × Pos × Nat) :
    Prop :=
  s.1.length = L ∧ (s.2.1 :: s.1.reduceOption).Perm orig ∧ s.1.getD p none = none

theorem robinhoodInv_continue {L : Nat} {orig : List Pos} {p i : Nat}
    {s : List (Option Pos) × Pos × Nat} (hs : RobinhoodInv L orig p s)
    (hc : (robinhoodStep i s).1 = .kContinue) : RobinhoodInv L orig p (robinhoodStep i s).2 := by
  obtain ⟨positions, carried, numDisplaced⟩ := s
  obtain ⟨hlen, hperm, hp⟩ := hs
  cases hslot : positions.getD i none with
  | none =>
    rw [robinhoodStep_of_none hslot] at hc
    cases hc
  | some pos =>
    rw [robinhoodStep_of_some hslot]
    have hip : i ≠ p := by
      rintro rfl
      rw [hp] at hslot
      cases hslot
    refine ⟨by simpa using hlen, ?_, by rw [getD_set_of_ne hip]; exact hp⟩
    -- the slot's value is now carried, and the carried one sits in the slot
    exact (List.reduceOption_set_some_of_some (List.getElem?_of_getD_eq_some hslot) carried).trans
      hperm

theorem robinhoodInv_stop {L : Nat} {orig : List Pos} {p i : Nat}
    {s : List (Option Pos) × Pos × Nat} (hi : i < L) (hs : RobinhoodInv L orig p s)
    (hc : (robinhoodStep i s).1 = .kStop) :
    (robinhoodStep i s).2.1.length = L ∧ (robinhoodStep i s).2.1.reduceOption.Perm orig := by
  obtain ⟨positions, carried, numDisplaced⟩ := s
  obtain ⟨hlen, hperm, -⟩ := hs
  cases hslot : positions.getD i none with
  | none =>
    rw [robinhoodStep_of_none hslot]
    refine ⟨by simpa using hlen, ?_⟩
    have hi' : i < positions.length := hlen ▸ hi
    exact (List.reduceOption_set_some_of_none (List.getElem?_of_getD_eq_none hi' hslot)
      carried).trans hperm
  | some pos =>
    rw [robinhoodStep_of_some hslot] at hc
    cases hc

/-- `DoRobinhoodAtPosition` in a table with an empty slot: the table keeps its length, and its
occupied values are the old ones and the one put in. -/
theorem doRobinhoodAtPosition_positions {m : Map} {idx p : Nat} (newPos : Pos)
    (hidx : idx < m.positions.length) (hp : p < m.positions.length)
    (hnone : m.positions.getD p none = none) :
    (m.doRobinhoodAtPosition idx newPos).1.positions.length = m.positions.length ∧
      (m.doRobinhoodAtPosition idx newPos).1.positions.reduceOption.Perm
        (newPos :: m.positions.reduceOption) := by
  have hL : 0 < m.positions.length := by omega
  obtain ⟨i, -, hpost⟩ := Probe.loop_round hL
    (RobinhoodInv m.positions.length (newPos :: m.positions.reduceOption) p)
    (fun _ s => s.1.length = m.positions.length ∧
      s.1.reduceOption.Perm (newPos :: m.positions.reduceOption)) hp
    (fun _ _ _ hs hc => robinhoodInv_continue hs hc)
    (fun _ _ hi hs hc => robinhoodInv_stop hi hs hc)
    (fun s hs => by
      obtain ⟨positions, carried, numDisplaced⟩ := s
      rw [robinhoodStep_of_none hs.2.2])
    hidx (s := (m.positions, newPos, 0)) ⟨rfl, List.Perm.refl _, hnone⟩
  exact hpost

/-! ## Where the insertion probe stops -/

/-- Where `DoInsertOrModify`'s probe stops, and the map it leaves there. -/
inductive InsertOutcome (m : Map) (hash : Nat) (key value : Bytes)
    (action : InsertOrModifyOccupiedAction) (idx dist : Nat) : Map → Prop
  /-- An empty slot: `perform_vacant`. -/
  | vacant (hslot : m.positions.getD idx none = none) :
      InsertOutcome m hash key value action idx dist (m.performVacant hash dist idx key value)
  /-- An entry closer to its desired slot than the probe has walked: `perform_robinhood`. -/
  | robinhood {pos : Pos} (hslot : m.positions.getD idx none = some pos)
      (hfar : dist > probeDistance m.mask pos.hash idx) :
      InsertOutcome m hash key value action idx dist (m.performRobinhood hash dist idx key value)
  /-- The key's own entry: `perform_occupied`. -/
  | occupied {pos : Pos} (hslot : m.positions.getD idx none = some pos) (hhash : pos.hash = hash)
      (hkey : strIcaseEqual (m.entryAt pos.entriesIndex).1 key = true) :
      InsertOutcome m hash key value action idx dist
        (m.performOccupied action pos.entriesIndex value)

section Outcome

variable {m : Map} {hash : Nat} {key value : Bytes} {action : InsertOrModifyOccupiedAction}

theorem inserterStep_continue {i : Nat} {s : Map × Nat} (hs : s.1 = m)
    (hc : (inserterStep hash key value action i s).1 = .kContinue) :
    (inserterStep hash key value action i s).2.1 = m := by
  obtain ⟨m', dist⟩ := s
  cases hs
  cases hslot : m'.positions.getD i none with
  | none => rw [inserterStep_of_none hslot] at hc; cases hc
  | some pos =>
    by_cases hfar : dist > probeDistance m'.mask pos.hash i
    · rw [inserterStep_of_far hslot hfar] at hc; cases hc
    · by_cases hmatch : pos.hash = hash ∧ strIcaseEqual (m'.entryAt pos.entriesIndex).1 key
      · rw [inserterStep_of_match hslot hfar hmatch] at hc; cases hc
      · rw [inserterStep_of_skip hslot hfar hmatch]

theorem inserterStep_stop {i : Nat} {s : Map × Nat} (hs : s.1 = m)
    (hc : (inserterStep hash key value action i s).1 = .kStop) :
    InsertOutcome m hash key value action i (inserterStep hash key value action i s).2.2
      (inserterStep hash key value action i s).2.1 := by
  obtain ⟨m', dist⟩ := s
  cases hs
  cases hslot : m'.positions.getD i none with
  | none =>
    rw [inserterStep_of_none hslot]
    exact .vacant hslot
  | some pos =>
    by_cases hfar : dist > probeDistance m'.mask pos.hash i
    · rw [inserterStep_of_far hslot hfar]
      exact .robinhood hslot hfar
    · by_cases hmatch : pos.hash = hash ∧ strIcaseEqual (m'.entryAt pos.entriesIndex).1 key
      · rw [inserterStep_of_match hslot hfar hmatch]
        exact .occupied hslot hmatch.1 hmatch.2
      · rw [inserterStep_of_skip hslot hfar hmatch] at hc
        cases hc

/-- In a table with an empty slot the insertion probe stops within one round, at one of the
three outcomes. -/
theorem inserterLoop_outcome (hash : Nat) (key value : Bytes)
    (action : InsertOrModifyOccupiedAction) (hmask : m.mask < m.positions.length) {p : Nat}
    (hp : p < m.positions.length) (hnone : m.positions.getD p none = none) :
    ∃ idx dist m', idx < m.positions.length ∧
      m.probeLoop (desiredPos m.mask hash) (inserterStep hash key value action) (m, 0) =
        (some idx, (m', dist)) ∧
      InsertOutcome m hash key value action idx dist m' := by
  have hL : 0 < m.positions.length := by omega
  have hstart : desiredPos m.mask hash < m.positions.length :=
    Nat.lt_of_le_of_lt (desiredPos_le _ _) hmask
  obtain ⟨idx, hidx, hpost⟩ := Probe.loop_round hL (fun s => s.1 = m)
    (fun i s => i < m.positions.length ∧ InsertOutcome m hash key value action i s.2 s.1) hp
    (fun _ _ _ hs hc => inserterStep_continue hs hc)
    (fun _ _ hi hs hc => ⟨hi, inserterStep_stop hs hc⟩)
    (fun s hs => by
      obtain ⟨m', dist⟩ := s
      cases hs
      rw [inserterStep_of_none hnone])
    hstart (rfl : (m, 0).1 = m)
  refine ⟨idx, _, _, hpost.1, ?_, hpost.2⟩
  exact Prod.ext hidx rfl

end Outcome

/-- `DoInsertOrModify` after a `ReserveOne` that returned a map with an empty slot: the probe's
outcome, and the entry index of the slot it stopped at. -/
theorem doInsertOrModifyWith_outcome {reserve : Map → Throwing Unit} {m m₁ : Map}
    (hres : reserve m = (m₁, .ok ())) (hmask : m₁.mask < m₁.positions.length) {p : Nat}
    (hp : p < m₁.positions.length) (hnone : m₁.positions.getD p none = none) (key : Bytes)
    (hash : Nat) (value : Bytes) (action : InsertOrModifyOccupiedAction) :
    ∃ idx dist m', idx < m₁.positions.length ∧
      doInsertOrModifyWith reserve key hash value action m =
        (m', .ok ((m'.positions.getD idx none).elim 0 Pos.entriesIndex)) ∧
      InsertOutcome m₁ hash key value action idx dist m' := by
  obtain ⟨idx, dist, m', hidx, hloop, hout⟩ :=
    inserterLoop_outcome hash key value action hmask hp hnone
  exact ⟨idx, dist, m', hidx, doInsertOrModifyWith_of_stop hres hloop, hout⟩

/-! ## The index structure -/

/-- The slots index the entries: one occupied slot for each entry, each pointing inside the
entries and carrying its entry's header index. -/
structure Indexed (m : Map) : Prop where
  count : m.positions.reduceOption.length = m.entries.length
  nodup : (m.positions.reduceOption.map Pos.entriesIndex).Nodup
  lt : ∀ pos ∈ m.positions.reduceOption, pos.entriesIndex < m.entries.length
  headerIndex : ∀ pos ∈ m.positions.reduceOption,
    pos.headerIndex = getHeaderIndexForInsertion (m.entryAt pos.entriesIndex).1

namespace Indexed

/-- A map without entries and with every slot empty. -/
theorem of_empty {m : Map} (hpositions : m.positions.reduceOption = []) (hentries : m.entries = []) :
    Indexed m := by
  refine ⟨by rw [hpositions, hentries]; rfl, by rw [hpositions]; exact List.nodup_nil, ?_, ?_⟩
  · intro pos hpos
    rw [hpositions] at hpos
    cases hpos
  · intro pos hpos
    rw [hpositions] at hpos
    cases hpos

/-- An indexed map short of a full table has an empty slot. -/
theorem exists_empty {m : Map} (h : Indexed m) (hlt : m.entries.length < m.positions.length) :
    ∃ p < m.positions.length, m.positions.getD p none = none := by
  obtain ⟨p, hp⟩ := List.exists_none_of_reduceOption_length_lt (h.count ▸ hlt)
  have hpL : p < m.positions.length := by
    by_contra hge
    rw [List.getElem?_eq_none (by omega)] at hp
    cases hp
  refine ⟨p, hpL, ?_⟩
  rw [List.getD_eq_getElem?_getD, hp, Option.getD_some]

/-- An entry appended with a slot of its own keeps the index structure. -/
theorem append {m m' : Map} (h : Indexed m) {key value : Bytes} (hash : Nat)
    (hentries : m'.entries = m.entries ++ [(key, value)])
    (hperm : m'.positions.reduceOption.Perm
      (⟨m.entries.length, hash, getHeaderIndexForInsertion key⟩ :: m.positions.reduceOption)) :
    Indexed m' := by
  have hmem : ∀ pos ∈ m'.positions.reduceOption,
      pos = ⟨m.entries.length, hash, getHeaderIndexForInsertion key⟩ ∨
        pos ∈ m.positions.reduceOption := fun pos hpos => by
    simpa using hperm.mem_iff.1 hpos
  refine ⟨?_, ?_, ?_, ?_⟩
  · rw [hperm.length_eq, hentries, List.length_cons, h.count, List.length_append,
      List.length_singleton]
  · rw [(hperm.map Pos.entriesIndex).nodup_iff, List.map_cons, List.nodup_cons]
    refine ⟨fun hin => ?_, h.nodup⟩
    obtain ⟨pos, hpos, hidx⟩ := List.mem_map.1 hin
    have hidx' : pos.entriesIndex = m.entries.length := hidx
    exact absurd (h.lt pos hpos) (by omega)
  · intro pos hpos
    rw [hentries, List.length_append, List.length_singleton]
    rcases hmem pos hpos with rfl | hold
    · exact Nat.lt_succ_self _
    · exact Nat.lt_succ_of_lt (h.lt pos hold)
  · intro pos hpos
    rcases hmem pos hpos with rfl | hold
    · rw [entryAt_append_self m.entries m' (key, value) hentries]
    · rw [entryAt_append_of_lt (h.lt pos hold) m' (key, value) hentries, h.headerIndex pos hold]
      rfl

/-- Values changed in place, with the names and slots as they were, keep the index structure. -/
theorem modify {m m' : Map} (h : Indexed m) (hpositions : m'.positions = m.positions)
    (hnames : m'.entries.map Prod.fst = m.entries.map Prod.fst) : Indexed m' := by
  have hlen : m'.entries.length = m.entries.length := by
    simpa using congrArg List.length hnames
  have hname : ∀ i, (m'.entryAt i).1 = (m.entryAt i).1 := fun i => by
    rw [entryAt_fst, entryAt_fst, hnames]
  refine ⟨?_, ?_, ?_, ?_⟩
  · rw [hpositions, hlen]; exact h.count
  · rw [hpositions]; exact h.nodup
  · intro pos hpos
    rw [hlen]
    exact h.lt pos (hpositions ▸ hpos)
  · intro pos hpos
    rw [hname]
    exact h.headerIndex pos (hpositions ▸ hpos)

end Indexed

theorem map_fst_modify_snd (entries : List (Bytes × Bytes)) (i : Nat) (f : Bytes → Bytes) :
    (entries.modify i fun e => (e.1, f e.2)).map Prod.fst = entries.map Prod.fst := by
  induction entries generalizing i with
  | nil => cases i <;> rfl
  | cons e rest ih =>
    cases i with
    | zero => rfl
    | succ i => simp only [List.modify_succ_cons, List.map_cons, ih]

/-- `perform_occupied` keeps the names. -/
theorem performOccupied_names (action : InsertOrModifyOccupiedAction) (idx : Nat) (value : Bytes)
    (m : Map) :
    (m.performOccupied action idx value).entries.map Prod.fst = m.entries.map Prod.fst := by
  cases action with
  | kAppend => exact map_fst_modify_snd m.entries idx (· ++ [44] ++ value)
  | kReplace => exact map_fst_modify_snd m.entries idx fun _ => value
  | kNoop => rfl
  | kAssert => rfl

namespace InsertOutcome

variable {m m' : Map} {hash : Nat} {key value : Bytes} {action : InsertOrModifyOccupiedAction}
  {idx dist : Nat}

/-- Every outcome keeps the table's length and mask, and at most turns the state yellow. -/
theorem shape (ho : InsertOutcome m hash key value action idx dist m') {p : Nat}
    (hidx : idx < m.positions.length) (hp : p < m.positions.length)
    (hnone : m.positions.getD p none = none) :
    m'.positions.length = m.positions.length ∧ m'.mask = m.mask ∧
      (m'.danger = m.danger ∨ m'.danger = m.danger.toYellow) := by
  cases ho with
  | vacant hslot =>
    rw [performVacant_eq]
    refine ⟨by simp, rfl, ?_⟩
    split_ifs
    · exact .inr rfl
    · exact .inl rfl
  | robinhood hslot hfar =>
    refine ⟨?_, performRobinhood_mask .., performRobinhood_danger ..⟩
    rw [performRobinhood_positions]
    exact (doRobinhoodAtPosition_positions (m := { m with entries := _ }) _ hidx hp hnone).1
  | occupied hslot hhash hkey =>
    simp

/-- Every outcome keeps the index structure. -/
theorem indexed (ho : InsertOutcome m hash key value action idx dist m') (h : Indexed m)
    {p : Nat} (hidx : idx < m.positions.length) (hp : p < m.positions.length)
    (hnone : m.positions.getD p none = none) : Indexed m' := by
  cases ho with
  | vacant hslot =>
    refine h.append hash (by rw [performVacant_eq]) ?_
    rw [performVacant_eq]
    exact List.reduceOption_set_some_of_none (List.getElem?_of_getD_eq_none hidx hslot) _
  | robinhood hslot hfar =>
    refine h.append hash (performRobinhood_entries ..) ?_
    rw [performRobinhood_positions]
    exact (doRobinhoodAtPosition_positions (m := { m with entries := _ }) _ hidx hp hnone).2
  | occupied hslot hhash hkey =>
    exact h.modify (performOccupied_positions ..) (performOccupied_names ..)

/-- For a key no entry has, the probe cannot stop at the key's entry: the entry is appended and
gets a slot of its own. -/
theorem fresh (ho : InsertOutcome m hash key value action idx dist m') (h : Indexed m)
    (hfresh : ∀ e ∈ m.entries, strIcaseEqual e.1 key = false) {p : Nat}
    (hidx : idx < m.positions.length) (hp : p < m.positions.length)
    (hnone : m.positions.getD p none = none) :
    m'.entries = m.entries ++ [(key, value)] ∧
      m'.positions.reduceOption.Perm
        (⟨m.entries.length, hash, getHeaderIndexForInsertion key⟩ :: m.positions.reduceOption) := by
  cases ho with
  | vacant hslot =>
    rw [performVacant_eq]
    exact ⟨rfl, List.reduceOption_set_some_of_none (List.getElem?_of_getD_eq_none hidx hslot) _⟩
  | robinhood hslot hfar =>
    refine ⟨performRobinhood_entries .., ?_⟩
    rw [performRobinhood_positions]
    exact (doRobinhoodAtPosition_positions (m := { m with entries := _ }) _ hidx hp hnone).2
  | @occupied pos hslot hhash hkey =>
    -- the slot points inside the entries, at an entry whose name is not the key's
    have hlt := h.lt _ (mem_reduceOption_of_getD hslot)
    have hmem : m.entryAt pos.entriesIndex ∈ m.entries := by
      rw [entryAt, List.getD_eq_getElem _ _ hlt]
      exact List.getElem_mem hlt
    rw [hfresh _ hmem] at hkey
    cases hkey

end InsertOutcome

/-! ## `Rebuild` -/

/-- A property that every insertion of `Rebuild` keeps, with the entries inserted so far, holds
after the whole `Rebuild`, which then returns. -/
theorem rebuildWith_spec (insert : Map → Bytes → Bytes → Throwing Nat) (m : Map)
    (I : Map → List (Bytes × Bytes) → Prop)
    (hinit : I { m with positions := List.replicate m.positions.length none, entries := [] } [])
    (hstep : ∀ a pre e rest, pre ++ e :: rest = m.entries → I a pre →
      ∃ a' n, insert a e.1 e.2 = (a', .ok n) ∧ I a' (pre ++ [e])) :
    ∃ a', rebuildWith insert m = (a', .ok ()) ∧ I a' m.entries := by
  -- induction on the entries still to insert, the ones inserted being `pre`
  suffices hsuff : ∀ rest pre a, pre ++ rest = m.entries → I a pre →
      ∃ a', rest.foldl (rebuildStep insert) (a, .ok ()) = (a', .ok ()) ∧ I a' m.entries by
    exact hsuff m.entries [] _ rfl hinit
  intro rest
  induction rest with
  | nil =>
    intro pre a hpre ha
    rw [List.append_nil] at hpre
    exact ⟨a, rfl, hpre ▸ ha⟩
  | cons e rest ih =>
    intro pre a hpre ha
    obtain ⟨a', n, hins, ha'⟩ := hstep a pre e rest hpre ha
    have hfold : (e :: rest).foldl (rebuildStep insert) (a, .ok ()) =
        rest.foldl (rebuildStep insert) (a', .ok ()) := by
      simp only [List.foldl_cons, rebuildStep, hins]
      rfl
    rw [hfold]
    exact ih (pre ++ [e]) a' (by rw [List.append_assoc]; exact hpre) ha'

/-- `ToYellow` leaves a red state alone. -/
theorem toYellow_of_red {danger : Danger} (h : danger.state = .kRed) : danger.toYellow = danger := by
  simp [Danger.toYellow, h]

section Fresh

variable (sipHash : UInt64 → UInt64 → Bytes → UInt64) (seed : UInt64 × UInt64)

/-- `Rebuild` in the red state of entries no two of which share a name, short of capacity: the
entries come back in order, each with a slot of its own, and the state stays red. -/
theorem rebuildWith_fresh (depth : Nat) {m : Map} (hred : m.danger.state = .kRed)
    (hmask : m.mask < m.positions.length) (hcap : m.entries.length ≤ m.capacity)
    (hdistinct : m.entries.Pairwise fun a b => strIcaseEqual a.1 b.1 = false) :
    ∃ m', rebuildWith (fun a key value => doInsertOrModifyWith (reserveOneAt sipHash seed depth)
        key (a.hashKey sipHash key) value .kAssert a) m = (m', .ok ()) ∧
      m'.entries = m.entries ∧ Indexed m' ∧ m'.danger = m.danger ∧
      m'.positions.length = m.positions.length ∧ m'.mask = m.mask := by
  have hcapL : m.capacity ≤ m.positions.length := Nat.sub_le _ _
  obtain ⟨m', hrebuild, hentries, hidx, hdanger, hlen, hm⟩ := rebuildWith_spec
    (fun a key value => doInsertOrModifyWith (reserveOneAt sipHash seed depth) key
      (a.hashKey sipHash key) value .kAssert a) m
    (fun a pre => a.entries = pre ∧ Indexed a ∧ a.danger = m.danger ∧
      a.positions.length = m.positions.length ∧ a.mask = m.mask)
    ⟨rfl, Indexed.of_empty (by simp) rfl, rfl, by simp, rfl⟩
    (fun a pre e rest hsplit ⟨hpre, ha, hda, hla, hma⟩ => by
      have hlt : pre.length < m.entries.length := by
        rw [← hsplit, List.length_append, List.length_cons]; omega
      -- the state stays red, so the nested `ReserveOne` does nothing
      have hres : reserveOneAt sipHash seed depth a = (a, .ok ()) := by
        refine reserveOneAt_of_ne_capacity sipHash (by simp [Danger.isYellow, hda, hred]) ?_ depth
        rw [hpre, capacity, hla]
        exact Nat.ne_of_lt (Nat.lt_of_lt_of_le hlt hcap)
      obtain ⟨p, hp, hnone⟩ := ha.exists_empty (by rw [hpre, hla]; omega)
      obtain ⟨idx, dist, a', hidx, hins, hout⟩ := doInsertOrModifyWith_outcome hres
        (by rw [hma, hla]; exact hmask) hp hnone e.1 (a.hashKey sipHash e.1) e.2 .kAssert
      have hfresh : ∀ x ∈ a.entries, strIcaseEqual x.1 e.1 = false := by
        rw [hpre]
        intro x hx
        rw [← hsplit] at hdistinct
        exact (List.pairwise_append.1 hdistinct).2.2 x hx e List.mem_cons_self
      obtain ⟨hentries', -⟩ := hout.fresh ha hfresh hidx hp hnone
      obtain ⟨hlen', hmask', hdanger'⟩ := hout.shape hidx hp hnone
      refine ⟨a', _, hins, by rw [hentries', hpre], hout.indexed ha hidx hp hnone, ?_,
        by rw [hlen', hla], by rw [hmask', hma]⟩
      rcases hdanger' with hd | hd
      · rw [hd, hda]
      · rw [hd, hda, toYellow_of_red hred])
  exact ⟨m', hrebuild, hentries, hidx, hdanger, hlen, hm⟩

end Fresh

end Map

end Headers

end Http

end Userver
