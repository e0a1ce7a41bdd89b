import Mathlib

/-!
# `utils::statistics::RecentPeriod`

A `RecentPeriod` (`recentperiod.hpp`) keeps a ring of `max_duration / epoch_duration + 3` buckets,
each a counter and the epoch it counts, an epoch being a time rounded down to a multiple of the
epoch duration.  `GetCurrentIndex` moves to the next bucket whenever the clock's epoch differs from
the current bucket's, and resets the bucket after it; `GetCurrentCounter` is the counter of the
bucket it returns.  `GetStatsForPeriod(duration, with_current_epoch)` walks the ring backwards from
the current bucket, skipping epochs after the current one (and the current one itself unless asked
for it) and stopping at the first epoch before `current_epoch - duration`; a `Result` with
`Add(counter, this_epoch_duration, before_this_epoch_duration)` gets each bucket with the duration
it covers, the others add the counters up.

Buckets are a function from indices; times and durations are tick counts, `Duration::min()` the
least `int64_t`.  A run is single-threaded: each compare-and-swap succeeds at its first try.

The ring is read as a list of the epochs it has moved to, newest first (`observedEpochs`), with the
amount accounted in each (`accounted`): `RingView` says each bucket, counted back from the current
one, holds the next of these epochs, until the ring has no more room.  Every call keeps this view
(`RingInv.step`), so over every run from the constructor with nondecreasing, nonnegative clock
readings (`recentPeriod_stats_window`):

* `GetStatsForPeriod(k * epoch, with_current_epoch)` at `T`, for `k` up to `max_duration / epoch`,
  hands `Add` exactly the counters of the epochs from `epoch(T) - k * epoch` to before `epoch(T)`
  (and of `epoch(T)` itself with `with_current_epoch`), so that their sum is the sum of the amounts
  accounted at those epochs: the ring is long enough never to have dropped one of them;
* each call to `Add` gets `this_epoch_duration` the epoch duration, except the call for the
  current bucket, which gets `T - epoch(T)`.  The current bucket is the epoch of the last call that
  moved the ring, which need not be the current epoch: a completed epoch is then passed the partial
  duration (`recentPeriod_completed_epoch_partial_duration`).
-/

namespace Userver

namespace Utils

namespace Statistics

/-- `Duration::min()`: the epoch of a reset bucket. -/
def kDurationMin : Int := -9223372036854775808

/-- `RecentPeriod::EpochBucket`. -/
structure EpochBucket (α : Type) where
  epoch : Int
  counter : α
  deriving DecidableEq, Repr

/-- `EpochBucket::Reset`: no epoch, a zero counter. -/
def EpochBucket.reset {α : Type} [Zero α] : EpochBucket α := ⟨kDurationMin, 0⟩

/-- The fields of a `RecentPeriod`; `items` is `items_`, of `size` buckets. -/
structure RecentPeriod (α : Type) where
  epochDuration : Int
  maxDuration : Int
  epochIndex : Nat
  size : Nat
  items : Nat → EpochBucket α

/-- What `GetStatsForPeriod` hands `Result::Add` for one bucket. -/
structure AddCall (α : Type) where
  counter : α
  thisEpochDuration : Int
  beforeThisEpochDuration : Int
  deriving DecidableEq, Repr

namespace RecentPeriod

variable {α : Type} [AddCommMonoid α]

/-! ## The member functions -/

/-- `GetSizeForDuration`: the current bucket, the next (zero) one and one extra. -/
def getSizeForDuration (epochDuration maxDuration : Int) : Nat :=
  (maxDuration.tdiv epochDuration + 3).toNat

/-- `RecentPeriod(epoch_duration, max_duration)`: every bucket reset, `epoch_index_` zero. -/
def new (epochDuration maxDuration : Int) : RecentPeriod α :=
  ⟨epochDuration, maxDuration, 0, getSizeForDuration epochDuration maxDuration, fun _ => .reset⟩

/-- `GetEpochForDuration`: the time rounded to a multiple of the epoch duration, with `%` on
durations truncating as C++ does. -/
def getEpochForDuration (rp : RecentPeriod α) (duration : Int) : Int :=
  duration - duration.tmod rp.epochDuration

/-- `GetCurrentIndex` at the clock reading `now`: the index of the bucket of the current epoch,
moving to the next bucket and resetting the one after it when the epoch has changed. -/
def getCurrentIndex (now : Int) (rp : RecentPeriod α) : Nat × RecentPeriod α :=
  let epoch := rp.getEpochForDuration now
  let index := rp.epochIndex
  if epoch ≠ (rp.items index).epoch then
    let newIndex := (index + 1) % rp.size
    let items := Function.update rp.items newIndex { rp.items newIndex with epoch := epoch }
    (newIndex, { rp with
      epochIndex := newIndex
      items := Function.update items ((newIndex + 1) % rp.size) .reset })
  else (index, rp)

/-- `items_[index].counter += amount`. -/
def addToCounter (index : Nat) (amount : α) (rp : RecentPeriod α) : RecentPeriod α :=
  { rp with
    items := Function.update rp.items index
      { rp.items index with counter := (rp.items index).counter + amount } }

/-- `GetCurrentCounter() += amount` at the clock reading `now`. -/
def account (now : Int) (amount : α) (rp : RecentPeriod α) : RecentPeriod α :=
  let r := rp.getCurrentIndex now
  r.2.addToCounter r.1 amount

/-- `UpdateEpochIfOld()` at the clock reading `now`. -/
def updateEpochIfOld (now : Int) (rp : RecentPeriod α) : RecentPeriod α :=
  (rp.getCurrentIndex now).2

/-- The loop of `GetStatsForPeriod`: `fuel` more turns, the `i`-th from bucket `index`, going
backwards round the ring. -/
def collect (rp : RecentPeriod α) (currentEpoch startEpoch firstEpochDuration : Int)
    (withCurrentEpoch : Bool) : Nat → Nat → Nat → List (AddCall α)
  | 0, _, _ => []
  | fuel + 1, i, index =>
    let epoch := (rp.items index).epoch
    let rest := collect rp currentEpoch startEpoch firstEpochDuration withCurrentEpoch fuel (i + 1)
      ((index + rp.size - 1) % rp.size)
    if epoch > currentEpoch then rest
    else if epoch = currentEpoch ∧ withCurrentEpoch = false then rest
    else if epoch < startEpoch then []
    else
      ⟨(rp.items index).counter, if i = 0 then firstEpochDuration else rp.epochDuration,
        epoch - startEpoch⟩ :: rest

/-- The calls `GetStatsForPeriod(duration, with_current_epoch)` at the clock reading `now` makes
to `Result::Add`, in order; `Duration::min()` asks for `max_duration_`. -/
def statsAddCalls (now duration : Int) (withCurrentEpoch : Bool) (rp : RecentPeriod α) :
    List (AddCall α) :=
  let duration := if duration = kDurationMin then rp.maxDuration else duration
  let currentEpoch := rp.getEpochForDuration now
  rp.collect currentEpoch (currentEpoch - duration) (now - currentEpoch) withCurrentEpoch rp.size 0
    rp.epochIndex

/-- `GetStatsForPeriod` for a `Result` that adds the counters up (`result += counter`). -/
def getStatsForPeriod (now duration : Int) (withCurrentEpoch : Bool) (rp : RecentPeriod α) : α :=
  ((rp.statsAddCalls now duration withCurrentEpoch).map AddCall.counter).sum

end RecentPeriod

/-! ## Runs -/

/-- A call that moves the ring, with the clock reading it takes. -/
inductive PeriodCall (α : Type) where
  | account (now : Int) (amount : α)
  | updateEpochIfOld (now : Int)
  deriving DecidableEq, Repr

namespace PeriodCall

variable {α : Type} [AddCommMonoid α]

/-- The clock reading of a call. -/
def now : PeriodCall α → Int
  | .account now _ => now
  | .updateEpochIfOld now => now

/-- The amount a call accounts. -/
def amount : PeriodCall α → α
  | .account _ amount => amount
  | .updateEpochIfOld _ => 0

end PeriodCall

namespace RecentPeriod

variable {α : Type} [AddCommMonoid α]

/-- One call. -/
def periodStep (rp : RecentPeriod α) : PeriodCall α → RecentPeriod α
  | .account now amount => rp.account now amount
  | .updateEpochIfOld now => rp.updateEpochIfOld now

/-- A run of calls. -/
def runCalls (rp : RecentPeriod α) (calls : List (PeriodCall α)) : RecentPeriod α :=
  calls.foldl periodStep rp

end RecentPeriod

/-! ## What the ring stands for -/

section Abstract

variable {α : Type}

/-- `epoch(t) = t - t mod E`: the start of the epoch a time falls in. -/
def epochOf (E t : Int) : Int := t - t % E

/-- The epochs the ring has moved to, newest first: a call whose epoch is not the newest one moves
the ring to it. -/
def observedEpochs (E : Int) (calls : List (PeriodCall α)) : List Int :=
  calls.foldl (fun obs call =>
    if obs.head? = some (epochOf E call.now) then obs else epochOf E call.now :: obs) []

/-- The amount accounted at the epoch `e`. -/
def accounted [AddCommMonoid α] (E : Int) (calls : List (PeriodCall α)) (e : Int) : α :=
  ((calls.filter fun call => epochOf E call.now = e).map PeriodCall.amount).sum

/-- The epochs a query covers: from `start` to before `current`, and `current` with
`withCurrent`. -/
def inWindow (start current : Int) (withCurrent : Bool) (e : Int) : Bool :=
  decide (start ≤ e) && (decide (e < current) || withCurrent && decide (e = current))

/-- The sum a query is meant to return: the amounts accounted at epochs in its window. -/
def windowSum [AddCommMonoid α] (E start current : Int) (withCurrent : Bool) (calls : List (PeriodCall α)) : α :=
  ((calls.filter fun call => inWindow start current withCurrent (epochOf E call.now)).map
    PeriodCall.amount).sum

/-- Clock readings that never go back. -/
def NowNondecreasing (calls : List (PeriodCall α)) : Prop :=
  calls.Pairwise fun a b => a.now ≤ b.now

instance : DecidablePred (NowNondecreasing (α := α)) := fun calls =>
  inferInstanceAs (Decidable (calls.Pairwise fun a b => a.now ≤ b.now))

theorem observedEpochs_append (E : Int) (done : List (PeriodCall α)) (call : PeriodCall α) :
    observedEpochs E (done ++ [call]) =
      if (observedEpochs E done).head? = some (epochOf E call.now) then observedEpochs E done
      else epochOf E call.now :: observedEpochs E done := by
  rw [observedEpochs, observedEpochs, List.foldl_append]
  rfl

theorem accounted_append [AddCommMonoid α] (E : Int) (done : List (PeriodCall α)) (call : PeriodCall α) (e : Int) :
    accounted E (done ++ [call]) e =
      accounted E done e + if epochOf E call.now = e then call.amount else 0 := by
  unfold accounted
  rw [List.filter_append, List.map_append, List.sum_append]
  by_cases h : epochOf E call.now = e <;> simp [h]

/-- The newest epoch is the last call's. -/
theorem observedEpochs_head (E : Int) (done : List (PeriodCall α)) (call : PeriodCall α) :
    (observedEpochs E (done ++ [call])).head? = some (epochOf E call.now) := by
  rw [observedEpochs_append]
  split_ifs with h
  · exact h
  · rfl

theorem observedEpochs_head_eq (E : Int) (calls : List (PeriodCall α)) :
    (observedEpochs E calls).head? = calls.getLast?.map fun call => epochOf E call.now := by
  induction calls using List.reverseRecOn with
  | nil => rfl
  | append_singleton done last _ =>
    rw [observedEpochs_head]
    simp

/-- The ring has moved to the epoch of every call. -/
theorem epochOf_mem_observedEpochs (E : Int) (done : List (PeriodCall α)) :
    ∀ call ∈ done, epochOf E call.now ∈ observedEpochs E done := by
  induction done using List.reverseRecOn with
  | nil => simp
  | append_singleton done last ih =>
    intro call hcall
    have hlast := observedEpochs_head E done last
    rw [List.mem_append, List.mem_singleton] at hcall
    rcases hcall with hcall | rfl
    · -- the epochs seen before stay: the list only grows
      rw [observedEpochs_append]
      split_ifs
      · exact ih call hcall
      · exact List.mem_cons_of_mem _ (ih call hcall)
    · exact List.mem_of_mem_head? hlast

/-- Every epoch the ring has moved to is a call's. -/
theorem exists_of_mem_observedEpochs (E : Int) (done : List (PeriodCall α)) :
    ∀ e ∈ observedEpochs E done, ∃ call ∈ done, epochOf E call.now = e := by
  induction done using List.reverseRecOn with
  | nil => simp [observedEpochs]
  | append_singleton done last ih =>
    intro e he
    rw [observedEpochs_append] at he
    split_ifs at he
    · obtain ⟨call, hcall, rfl⟩ := ih e he
      exact ⟨call, List.mem_append_left _ hcall, rfl⟩
    · rcases List.mem_cons.1 he with rfl | he
      · exact ⟨last, List.mem_append_right _ List.mem_cons_self, rfl⟩
      · obtain ⟨call, hcall, rfl⟩ := ih e he
        exact ⟨call, List.mem_append_left _ hcall, rfl⟩

theorem epochOf_eq_mul (E t : Int) : epochOf E t = E * (t / E) := by
  unfold epochOf
  rw [Int.emod_def]
  ring

theorem dvd_epochOf (E t : Int) : E ∣ epochOf E t := by
  rw [epochOf_eq_mul]
  exact Int.dvd_mul_right E _

section Epochs

variable {E : Int} (hE : 0 < E)
include hE

theorem epochOf_mono {t t' : Int} (h : t ≤ t') : epochOf E t ≤ epochOf E t' := by
  rw [epochOf_eq_mul, epochOf_eq_mul]
  exact Int.mul_le_mul_of_nonneg_left (Int.ediv_le_ediv hE h) hE.le

theorem epochOf_nonneg {t : Int} (h : 0 ≤ t) : 0 ≤ epochOf E t := by
  rw [epochOf_eq_mul]
  exact Int.mul_nonneg hE.le (Int.ediv_nonneg h hE.le)

/-- With a clock that never goes back, an epoch other than the newest one is after every epoch
the ring has moved to. -/
theorem lt_epochOf_of_head_ne {done : List (PeriodCall α)} {last : PeriodCall α}
    (hmono : NowNondecreasing (done ++ [last])) (hsorted : (observedEpochs E done).Pairwise (· > ·))
    (hhead : (observedEpochs E done).head? ≠ some (epochOf E last.now)) :
    ∀ e ∈ observedEpochs E done, e < epochOf E last.now := by
  have hbefore : ∀ call ∈ done, call.now ≤ last.now :=
    fun call hcall => (List.pairwise_append.1 hmono).2.2 call hcall last List.mem_cons_self
  intro e he
  rcases hobs : observedEpochs E done with _ | ⟨newest, older⟩
  · simp [hobs] at he
  -- the newest epoch is a call's, so not after the last call's, and differs from it
  have hnewest : newest ≠ epochOf E last.now := by
    rw [hobs] at hhead
    simpa using hhead
  obtain ⟨c, hc, hcn⟩ := exists_of_mem_observedEpochs E done newest (by simp [hobs])
  have hnewest_le : newest ≤ epochOf E last.now := hcn ▸ epochOf_mono hE (hbefore c hc)
  rw [hobs] at he hsorted
  rcases List.mem_cons.1 he with heq | hin
  · omega
  · have := (List.pairwise_cons.1 hsorted).1 _ hin
    omega

/-- With a clock that never goes back, the ring moves to ever later epochs. -/
theorem observedEpochs_pairwise {done : List (PeriodCall α)} (hmono : NowNondecreasing done) :
    (observedEpochs E done).Pairwise (· > ·) := by
  induction done using List.reverseRecOn with
  | nil => simp [observedEpochs]
  | append_singleton done last ih =>
    have hsorted := ih (List.pairwise_append.1 hmono).1
    rw [observedEpochs_append]
    split_ifs with hhead
    · exact hsorted
    · exact List.pairwise_cons.2 ⟨lt_epochOf_of_head_ne hE hmono hsorted hhead, hsorted⟩

omit hE in
/-- Epochs that are distinct multiples of `E`, newest first and none after `current`: the one at
position `j` is at least `j` epochs before `current`. -/
theorem add_mul_le_of_mem_drop :
    ∀ {L : List Int}, L.Pairwise (· > ·) → (∀ e ∈ L, E ∣ e) → ∀ {current : Int},
      (∀ e ∈ L, e ≤ current) → ∀ (j : Nat), ∀ e ∈ L.drop j, e + j * E ≤ current
  | [], _, _, _, _, _, _, he => by simp at he
  | a :: L, hsorted, hdvd, current, hle, j, e, he => by
    cases j with
    | zero => simpa using hle e (by simpa using he)
    | succ j =>
      -- the epochs after `a` are at least one epoch before it
      have hrest : ∀ e ∈ L, e ≤ a - E := by
        intro e he'
        have hgt := (List.pairwise_cons.1 hsorted).1 e he'
        have hdiff : E ∣ a - e := Int.dvd_sub (hdvd a List.mem_cons_self) (hdvd e (List.mem_cons_of_mem _ he'))
        have := Int.le_of_dvd (by omega) hdiff
        omega
      have := add_mul_le_of_mem_drop (List.pairwise_cons.1 hsorted).2
        (fun e he' => hdvd e (List.mem_cons_of_mem _ he')) hrest j e (by simpa using he)
      have ha := hle a List.mem_cons_self
      push_cast
      linarith

end Epochs

/-- No amount is accounted at an epoch no call is in. -/
theorem accounted_eq_zero [AddCommMonoid α] {E e : Int} {done : List (PeriodCall α)}
    (h : ∀ call ∈ done, epochOf E call.now ≠ e) : accounted E done e = 0 := by
  unfold accounted
  rw [List.filter_eq_nil_iff.2 (fun call hcall => by simpa using h call hcall)]
  rfl

/-- A sum over distinct epochs of what was accounted at each is the sum of the amounts accounted at
those epochs. -/
theorem sum_accounted_filter [AddCommMonoid α] (E : Int) (p : Int → Bool) {L : List Int} (hnodup : L.Nodup) :
    ∀ (calls : List (PeriodCall α)), (∀ call ∈ calls, epochOf E call.now ∈ L) →
      ((L.filter p).map (accounted E calls)).sum =
        ((calls.filter fun call => p (epochOf E call.now)).map PeriodCall.amount).sum
  | [], _ => by
    have hzero : accounted E ([] : List (PeriodCall α)) = fun _ => 0 := funext fun _ => rfl
    simp [hzero]
  | call :: calls, hmem => by
    have hfilter : (L.filter p).Nodup := hnodup.filter p
    have hsplit : accounted E (call :: calls) =
        fun e => (if epochOf E call.now = e then call.amount else 0) + accounted E calls e := by
      funext e
      unfold accounted
      by_cases h : epochOf E call.now = e <;> simp [h]
    have hone : ((L.filter p).map fun e => if epochOf E call.now = e then call.amount else 0).sum =
        if p (epochOf E call.now) then call.amount else 0 := by
      rw [← List.sum_toFinset _ hfilter, Finset.sum_ite_eq]
      have hin := hmem call List.mem_cons_self
      by_cases hp : p (epochOf E call.now) <;> simp [hp, hin]
    rw [hsplit, List.sum_map_add, hone,
      sum_accounted_filter E p hnodup calls (fun c hc => hmem c (List.mem_cons_of_mem _ hc))]
    by_cases hp : p (epochOf E call.now) <;> simp [hp]

/-- The loop of `GetStatsForPeriod` read over the epochs of the ring, newest first, with `acc` the
counter of each: the `i`-th and those after it. -/
def walkEpochs [AddCommMonoid α] (acc : Int → α) (currentEpoch startEpoch firstEpochDuration
    epochDuration : Int) (withCurrentEpoch : Bool) : Nat → List Int → List (AddCall α)
  | _, [] => []
  | i, epoch :: epochs =>
    let rest := walkEpochs acc currentEpoch startEpoch firstEpochDuration epochDuration
      withCurrentEpoch (i + 1) epochs
    if epoch > currentEpoch then rest
    else if epoch = currentEpoch ∧ withCurrentEpoch = false then rest
    else if epoch < startEpoch then []
    else ⟨acc epoch, if i = 0 then firstEpochDuration else epochDuration, epoch - startEpoch⟩ :: rest

section Walk

variable [AddCommMonoid α] (acc : Int → α) (currentEpoch startEpoch firstEpochDuration
  epochDuration : Int) (withCurrentEpoch : Bool)

/-- Over epochs newest first, the walk hands on the counters of the epochs in the window: it stops
at the first epoch before the window, after which none is in it. -/
theorem sum_walkEpochs :
    ∀ (i : Nat) {L : List Int}, L.Pairwise (· > ·) →
      ((walkEpochs acc currentEpoch startEpoch firstEpochDuration epochDuration withCurrentEpoch i
        L).map AddCall.counter).sum =
      ((L.filter (inWindow startEpoch currentEpoch withCurrentEpoch)).map acc).sum
  | _, [], _ => rfl
  | i, e :: L, hsorted => by
    have ih := sum_walkEpochs (i + 1) (List.pairwise_cons.1 hsorted).2
    unfold walkEpochs
    dsimp only
    by_cases hafter : e > currentEpoch
    · -- after the current epoch: skipped, and not in the window
      rw [if_pos hafter, ih, List.filter_cons_of_neg (by simp [inWindow]; omega)]
    rw [if_neg hafter]
    by_cases hcur : e = currentEpoch ∧ withCurrentEpoch = false
    · rw [if_pos hcur, ih, List.filter_cons_of_neg (by simp [inWindow, hcur.2]; omega)]
    rw [if_neg hcur]
    by_cases hbefore : e < startEpoch
    · -- before the window: the walk stops, and every later epoch is before it too
      have hnone : L.filter (inWindow startEpoch currentEpoch withCurrentEpoch) = [] := by
        rw [List.filter_eq_nil_iff]
        intro e' he'
        have := (List.pairwise_cons.1 hsorted).1 e' he'
        simp [inWindow]
        omega
      rw [if_pos hbefore, List.filter_cons_of_neg (by simp [inWindow]; omega), hnone]
      rfl
    have hin : inWindow startEpoch currentEpoch withCurrentEpoch e = true := by
      simp only [inWindow, Bool.and_eq_true, decide_eq_true_eq, Bool.or_eq_true]
      by_cases hwith : withCurrentEpoch <;> simp_all <;> omega
    rw [if_neg hbefore, List.filter_cons_of_pos hin, List.map_cons, List.map_cons, List.sum_cons,
      List.sum_cons, ih]

/-- Every call of the walk is for an epoch of the list, and only the `0`-th epoch gets
`firstEpochDuration`. -/
theorem mem_walkEpochs :
    ∀ (i : Nat) {L : List Int}, L.Nodup → ∀ c ∈ walkEpochs acc currentEpoch startEpoch
      firstEpochDuration epochDuration withCurrentEpoch i L,
      ∃ e ∈ L, c.counter = acc e ∧ c.beforeThisEpochDuration = e - startEpoch ∧
        c.thisEpochDuration = if i = 0 ∧ L.head? = some e then firstEpochDuration else epochDuration
  | _, [], _, c, hc => by simp [walkEpochs] at hc
  | i, e :: L, hnodup, c, hc => by
    have hrest : ∀ c ∈ walkEpochs acc currentEpoch startEpoch firstEpochDuration epochDuration
        withCurrentEpoch (i + 1) L, ∃ e' ∈ e :: L, c.counter = acc e' ∧
          c.beforeThisEpochDuration = e' - startEpoch ∧
          c.thisEpochDuration = if i = 0 ∧ (e :: L).head? = some e' then firstEpochDuration
            else epochDuration := by
      intro c hc
      obtain ⟨e', he', hcounter, hbefore, hthis⟩ :=
        mem_walkEpochs (i + 1) (List.nodup_cons.1 hnodup).2 c hc
      -- a later epoch is not the head: the epochs are distinct
      have hne : e ≠ e' := fun h => (List.nodup_cons.1 hnodup).1 (h ▸ he')
      refine ⟨e', List.mem_cons_of_mem _ he', hcounter, hbefore, ?_⟩
      simp [hthis, hne]
    unfold walkEpochs at hc
    dsimp only at hc
    by_cases hafter : e > currentEpoch
    · exact hrest c (by rwa [if_pos hafter] at hc)
    rw [if_neg hafter] at hc
    by_cases hcur : e = currentEpoch ∧ withCurrentEpoch = false
    · exact hrest c (by rwa [if_pos hcur] at hc)
    rw [if_neg hcur] at hc
    by_cases hbefore : e < startEpoch
    · rw [if_pos hbefore] at hc
      simp at hc
    rw [if_neg hbefore] at hc
    rcases List.mem_cons.1 hc with rfl | hc
    · exact ⟨e, List.mem_cons_self, rfl, rfl, by simp⟩
    · exact hrest c hc

end Walk

end Abstract

/-! ## Positions in the ring -/

section Ring

/-- Below `2 * n`, `% n` takes `n` off at most once. -/
theorem mod_of_lt_two_mul {x n : Nat} (h : x < 2 * n) : x % n = if x < n then x else x - n := by
  split_ifs with hlt
  · exact Nat.mod_eq_of_lt hlt
  · rw [Nat.mod_eq_sub_mod (by omega), Nat.mod_eq_of_lt (by omega)]

variable {n index : Nat} (hindex : index < n)
include hindex

/-- The bucket `0` places back is the current one. -/
theorem age_zero : (index + n - 0) % n = index := by
  rw [Nat.sub_zero, Nat.add_mod_right, Nat.mod_eq_of_lt hindex]

/-- Moving to the next bucket makes every bucket one place older. -/
theorem age_succ_of_advance {age : Nat} (hage : age < n) :
    ((index + 1) % n + n - (age + 1)) % n = (index + n - age) % n := by
  rw [mod_of_lt_two_mul (x := index + 1) (by omega)]
  split_ifs with hnext <;>
    rw [mod_of_lt_two_mul (by omega), mod_of_lt_two_mul (by omega)] <;> split_ifs <;> omega

/-- One turn of the loop of `GetStatsForPeriod` goes one place back. -/
theorem age_succ_of_back {age : Nat} (hage : age < n) :
    ((index + n - age) % n + n - 1) % n = (index + n - (age + 1)) % n := by
  rw [mod_of_lt_two_mul (x := index + n - age) (by omega)]
  split_ifs with hwrap <;>
    rw [mod_of_lt_two_mul (by omega), mod_of_lt_two_mul (by omega)] <;> split_ifs <;> omega

/-- Distinct places back within one turn are distinct buckets. -/
theorem age_inj {a b : Nat} (ha : a < n) (hb : b < n) (h : (index + n - a) % n = (index + n - b) % n) :
    a = b := by
  rw [mod_of_lt_two_mul (by omega), mod_of_lt_two_mul (by omega)] at h
  split_ifs at h <;> omega

/-- The bucket after the current one is the oldest, `n - 1` places back. -/
theorem next_eq_age_last : (index + 1) % n = (index + n - (n - 1)) % n := by
  congr 1
  omega

end Ring

namespace RecentPeriod

variable {α : Type} [AddCommMonoid α]

/-- The bucket `age` places back from the current one. -/
def slot (rp : RecentPeriod α) (age : Nat) : EpochBucket α :=
  rp.items ((rp.epochIndex + rp.size - age) % rp.size)

/-- The ring read as the epochs `obs`, newest first, with `acc` accounted in each: the bucket `age`
places back holds the `age`-th epoch while the ring has room for it, and is reset otherwise. -/
def RingView (rp : RecentPeriod α) (obs : List Int) (acc : Int → α) : Prop :=
  ∀ age < rp.size, rp.slot age = ((obs.take (rp.size - 1))[age]?).elim .reset fun e => ⟨e, acc e⟩

section View

variable {rp : RecentPeriod α} {obs : List Int} {acc : Int → α}

/-- The current bucket holds the newest epoch. -/
theorem RingView.current (h : rp.RingView obs acc) (hsize : 2 ≤ rp.size)
    (hindex : rp.epochIndex < rp.size) :
    rp.items rp.epochIndex = (obs.head?).elim .reset fun e => ⟨e, acc e⟩ := by
  have h0 := h 0 (by omega)
  unfold slot at h0
  rw [age_zero hindex] at h0
  rw [h0, List.getElem?_take, if_pos (by omega), List.head?_eq_getElem?]

/-- `GetCurrentIndex` in the newest epoch changes nothing. -/
theorem getCurrentIndex_of_head (h : rp.RingView obs acc) (hsize : 2 ≤ rp.size)
    (hindex : rp.epochIndex < rp.size) {now : Int}
    (hhead : obs.head? = some (rp.getEpochForDuration now)) :
    rp.getCurrentIndex now = (rp.epochIndex, rp) := by
  have hcur := h.current hsize hindex
  rw [hhead] at hcur
  unfold getCurrentIndex
  dsimp only
  rw [hcur]
  simp

/-- `GetCurrentIndex` in a new epoch puts it in front, in the next bucket, and resets the bucket
after it, the oldest one. -/
theorem getCurrentIndex_of_ne (h : rp.RingView obs acc) (hsize : 3 ≤ rp.size)
    (hindex : rp.epochIndex < rp.size) {now : Int}
    (hhead : obs.head? ≠ some (rp.getEpochForDuration now))
    (hmin : rp.getEpochForDuration now ≠ kDurationMin)
    (hacc : acc (rp.getEpochForDuration now) = 0) :
    let r := rp.getCurrentIndex now
    r.1 = r.2.epochIndex ∧ r.2.epochIndex < rp.size ∧ r.2.size = rp.size ∧
      r.2.epochDuration = rp.epochDuration ∧
      r.2.RingView (rp.getEpochForDuration now :: obs) acc := by
  have hcur := h.current (by omega) hindex
  -- the current bucket's epoch is not the new one
  have hne : rp.getEpochForDuration now ≠ (rp.items rp.epochIndex).epoch := by
    rw [hcur]
    rcases hobs : obs.head? with _ | e'
    · exact hmin
    · rw [hobs] at hhead
      exact fun heq => hhead (by rw [heq]; rfl)
  have hnext_lt : (rp.epochIndex + 1) % rp.size < rp.size := Nat.mod_lt _ (by omega)
  -- the next bucket is the oldest one, which the view says is reset
  have holdest : rp.items ((rp.epochIndex + 1) % rp.size) = .reset := by
    have := h (rp.size - 1) (by omega)
    unfold slot at this
    rw [← next_eq_age_last hindex] at this
    rw [this, List.getElem?_take, if_neg (by omega)]
    rfl
  have hafter_ne : (rp.epochIndex + 1) % rp.size ≠ ((rp.epochIndex + 1) % rp.size + 1) % rp.size := by
    intro heq
    have := age_inj hnext_lt (a := 0) (b := rp.size - 1) (by omega) (by omega)
    rw [age_zero hnext_lt, ← next_eq_age_last hnext_lt] at this
    have := this heq
    omega
  unfold getCurrentIndex
  dsimp only
  rw [if_pos hne]
  refine ⟨rfl, hnext_lt, rfl, rfl, ?_⟩
  unfold RingView slot
  dsimp only
  intro age hage
  rcases age with _ | age
  · -- the new current bucket: the new epoch, with the oldest bucket's zero counter
    rw [age_zero hnext_lt, Function.update_of_ne hafter_ne, Function.update_self, holdest]
    simp [show 0 < rp.size - 1 by omega, hacc, EpochBucket.reset]
  · rw [age_succ_of_advance hindex (by omega)]
    by_cases hlast : age + 1 = rp.size - 1
    · -- the bucket after the new current one: reset
      have hpos : (rp.epochIndex + rp.size - age) % rp.size = ((rp.epochIndex + 1) % rp.size + 1) % rp.size := by
        rw [← age_succ_of_advance hindex (show age < rp.size by omega), hlast, ← next_eq_age_last hnext_lt]
      rw [hpos, Function.update_self, List.getElem?_take, if_neg (by omega)]
      rfl
    · -- the other buckets: one place older
      have hne1 : (rp.epochIndex + rp.size - age) % rp.size ≠ (rp.epochIndex + 1) % rp.size := by
        intro heq
        rw [next_eq_age_last hindex] at heq
        have := age_inj hindex (by omega) (by omega) heq
        omega
      have hne2 : (rp.epochIndex + rp.size - age) % rp.size ≠ ((rp.epochIndex + 1) % rp.size + 1) % rp.size := by
        intro heq
        rw [← age_succ_of_advance hindex (show age < rp.size by omega), next_eq_age_last hnext_lt] at heq
        have := age_inj hnext_lt (by omega) (by omega) heq
        omega
      rw [Function.update_of_ne hne2, Function.update_of_ne hne1]
      have hold := h age (by omega)
      unfold slot at hold
      rw [hold, List.getElem?_take, List.getElem?_take, if_pos (by omega), if_pos (by omega),
        List.getElem?_cons_succ]

/-- Adding to the current counter adds to the newest epoch's amount. -/
theorem RingView.add_current (h : rp.RingView obs acc) (hsize : 2 ≤ rp.size)
    (hindex : rp.epochIndex < rp.size) {e : Int} (hhead : obs.head? = some e) (hnodup : obs.Nodup)
    (amount : α) :
    (rp.addToCounter rp.epochIndex amount).RingView obs
      (fun e' => acc e' + if e = e' then amount else 0) := by
  have hcur := h.current hsize hindex
  rw [hhead] at hcur
  intro age hage
  unfold slot addToCounter
  dsimp only
  rcases age with _ | age
  · rw [age_zero hindex, Function.update_self, hcur, ← List.head?_eq_getElem?, List.head?_take,
      if_neg (by omega), hhead]
    simp
  · -- an older bucket, with an older epoch
    have hne : (rp.epochIndex + rp.size - (age + 1)) % rp.size ≠ rp.epochIndex := by
      intro heq
      have := age_inj hindex hage (by omega) (heq.trans (age_zero hindex).symm)
      omega
    have hold := h (age + 1) hage
    unfold slot at hold
    rw [Function.update_of_ne hne, hold]
    rcases hget : (obs.take (rp.size - 1))[age + 1]? with _ | e'
    · rfl
    · -- distinct epochs: the newest is not this one
      have hmem : e' ∈ obs.drop 1 := by
        rw [List.getElem?_take] at hget
        split_ifs at hget
        rw [List.mem_iff_getElem?]
        exact ⟨age, by rw [List.getElem?_drop]; simpa [Nat.add_comm] using hget⟩
      obtain ⟨first, rest, rfl⟩ := List.exists_cons_of_ne_nil (List.ne_nil_of_mem (List.mem_of_mem_drop hmem))
      simp only [List.head?_cons, Option.some.injEq] at hhead
      subst hhead
      have hne' : first ≠ e' := fun heq => (List.nodup_cons.1 hnodup).1 (heq ▸ by simpa using hmem)
      simp [hne']

end View

/-- Every call is `GetCurrentIndex` and then an addition to the counter it returns, of zero for
`UpdateEpochIfOld`. -/
theorem periodStep_eq (rp : RecentPeriod α) (call : PeriodCall α) :
    rp.periodStep call =
      (rp.getCurrentIndex call.now).2.addToCounter (rp.getCurrentIndex call.now).1 call.amount := by
  cases call with
  | account now amount => rfl
  | updateEpochIfOld now => simp [periodStep, updateEpochIfOld, PeriodCall.now, PeriodCall.amount, addToCounter]

omit [AddCommMonoid α] in
theorem getEpochForDuration_eq {rp : RecentPeriod α} {E t : Int} (hE : rp.epochDuration = E)
    (ht : 0 ≤ t) : rp.getEpochForDuration t = epochOf E t := by
  unfold getEpochForDuration
  rw [hE, Int.tmod_eq_emod_of_nonneg ht]
  rfl

/-- What a run from the constructor keeps: the epoch duration, the `n` buckets, and the ring read as
the epochs of the calls so far with the amounts accounted in them. -/
structure RingInv (E : Int) (n : Nat) (done : List (PeriodCall α)) (rp : RecentPeriod α) : Prop where
  epochDuration : rp.epochDuration = E
  size : rp.size = n
  index_lt : rp.epochIndex < n
  view : rp.RingView (observedEpochs E done) (accounted E done)

section Run

variable {E : Int} {n : Nat} (hE : 0 < E) (hn : 3 ≤ n)
include hE hn

/-- One call keeps the view: in the newest epoch it adds to the current counter, in a new one it
moves the ring first. -/
theorem RingInv.step {done : List (PeriodCall α)} {rp : RecentPeriod α} (h : RingInv E n done rp)
    (call : PeriodCall α) (hmono : NowNondecreasing (done ++ [call])) (hnow : 0 ≤ call.now) :
    RingInv E n (done ++ [call]) (rp.periodStep call) := by
  have hepoch := getEpochForDuration_eq h.epochDuration hnow
  have hsize : 3 ≤ rp.size := by rw [h.size]; exact hn
  have hindex : rp.epochIndex < rp.size := by rw [h.size]; exact h.index_lt
  have hacc : accounted E (done ++ [call]) =
      fun e' => accounted E done e' + if epochOf E call.now = e' then call.amount else 0 :=
    funext (accounted_append E done call)
  have hsorted := observedEpochs_pairwise hE (List.pairwise_append.1 hmono).1
  rw [periodStep_eq]
  by_cases hhead : (observedEpochs E done).head? = some (epochOf E call.now)
  · -- the newest epoch: `GetCurrentIndex` changes nothing
    have hget := getCurrentIndex_of_head h.view (by omega) hindex (hepoch ▸ hhead)
    rw [hget]
    refine ⟨h.epochDuration, h.size, h.index_lt, ?_⟩
    rw [observedEpochs_append, if_pos hhead, hacc]
    exact h.view.add_current (by omega) hindex hhead hsorted.nodup call.amount
  · -- a new epoch, after every one seen, so nothing was accounted in it yet
    have hlt := lt_epochOf_of_head_ne hE hmono hsorted hhead
    have hfresh : accounted E done (epochOf E call.now) = 0 :=
      accounted_eq_zero fun c hc => (hlt _ (epochOf_mem_observedEpochs E done c hc)).ne
    have hmin : epochOf E call.now ≠ kDurationMin := by
      have := epochOf_nonneg hE hnow
      unfold kDurationMin
      omega
    obtain ⟨hfirst, hidx, hsz, hdur, hview⟩ :=
      getCurrentIndex_of_ne h.view hsize hindex (hepoch ▸ hhead) (hepoch ▸ hmin) (hepoch ▸ hfresh)
    rw [hepoch] at hview
    have hsorted' : (epochOf E call.now :: observedEpochs E done).Pairwise (· > ·) :=
      List.pairwise_cons.2 ⟨hlt, hsorted⟩
    rw [hfirst]
    refine ⟨hdur.trans h.epochDuration, hsz.trans h.size, by rw [← h.size]; exact hidx, ?_⟩
    rw [observedEpochs_append, if_neg hhead, hacc]
    exact hview.add_current (by omega) (hsz ▸ hidx) rfl hsorted'.nodup call.amount

end Run

/-- `RecentPeriod(E, m * E)` has `m + 3` buckets, all reset. -/
theorem ringInv_new {E : Int} (hE : 0 < E) (m : Nat) :
    RingInv E (m + 3) [] (new E (m * E) : RecentPeriod α) := by
  refine ⟨rfl, ?_, by simp [new], fun age _ => ?_⟩
  · simp only [new, getSizeForDuration]
    rw [Int.mul_tdiv_cancel _ hE.ne']
    omega
  · simp [slot, new, observedEpochs]

/-- Every run from the constructor with nondecreasing, nonnegative clock readings keeps the view. -/
theorem ringInv_runCalls {E : Int} (hE : 0 < E) (m : Nat) (calls : List (PeriodCall α))
    (hmono : NowNondecreasing calls) (hnonneg : ∀ call ∈ calls, 0 ≤ call.now) :
    RingInv E (m + 3) calls ((new E (m * E) : RecentPeriod α).runCalls calls) := by
  induction calls using List.reverseRecOn with
  | nil => exact ringInv_new hE m
  | append_singleton done last ih =>
    have hdone := ih (List.pairwise_append.1 hmono).1
      (fun call hcall => hnonneg call (List.mem_append_left _ hcall))
    rw [runCalls, List.foldl_append]
    exact hdone.step hE (by omega) last hmono (hnonneg last (List.mem_append_right _ List.mem_cons_self))

/-- The loop of `GetStatsForPeriod` over the ring is the loop over the epochs it holds: a reset
bucket stops it where the epochs run out. -/
theorem RingInv.collect_eq {E : Int} {n : Nat} {done : List (PeriodCall α)} {rp : RecentPeriod α}
    (h : RingInv E n done rp) {currentEpoch startEpoch : Int} (firstEpochDuration : Int)
    (withCurrentEpoch : Bool) (hstart : kDurationMin < startEpoch) (hcur : startEpoch ≤ currentEpoch) :
    ∀ (k i : Nat), i + k = n →
      rp.collect currentEpoch startEpoch firstEpochDuration withCurrentEpoch k i
          ((rp.epochIndex + n - i) % n) =
        walkEpochs (accounted E done) currentEpoch startEpoch firstEpochDuration E withCurrentEpoch i
          (((observedEpochs E done).take (n - 1)).drop i)
  | 0, i, hk => by
    -- every bucket visited: no epoch is left either
    have hnil : ((observedEpochs E done).take (n - 1)).drop i = [] :=
      List.drop_eq_nil_of_le (by simp only [List.length_take]; omega)
    rw [hnil]
    rfl
  | k + 1, i, hk => by
    have hslot := h.view i (by rw [h.size]; omega)
    unfold slot at hslot
    rw [h.size] at hslot
    have hnext : ((rp.epochIndex + n - i) % n + rp.size - 1) % rp.size =
        (rp.epochIndex + n - (i + 1)) % n := by
      rw [h.size]
      exact age_succ_of_back h.index_lt (by omega)
    have hrest := RingInv.collect_eq h firstEpochDuration withCurrentEpoch hstart hcur k (i + 1)
      (by omega)
    unfold collect
    rw [hnext, hrest, h.epochDuration]
    rcases hget : ((observedEpochs E done).take (n - 1))[i]? with _ | e
    · -- a reset bucket, before the window
      rw [hget] at hslot
      have hnil : ((observedEpochs E done).take (n - 1)).drop i = [] :=
        List.drop_eq_nil_of_le (List.getElem?_eq_none_iff.1 hget)
      simp only [hslot, hnil, Option.elim, EpochBucket.reset, walkEpochs]
      rw [if_neg (by omega), if_neg (by omega), if_pos hstart]
    · rw [hget] at hslot
      have hdrop : ((observedEpochs E done).take (n - 1)).drop i =
          e :: ((observedEpochs E done).take (n - 1)).drop (i + 1) := by
        obtain ⟨hi, he⟩ := List.getElem?_eq_some_iff.1 hget
        rw [List.drop_eq_getElem_cons hi, he]
      rw [hslot, hdrop]
      rfl

end RecentPeriod

/-! ## Queries after a run -/

section Query

open RecentPeriod

variable {α : Type} [AddCommMonoid α]

/-- `GetStatsForPeriod(k * E, with_current_epoch)` at `T` after a run from `RecentPeriod(E, m * E)`,
with `k ≤ m`, clock readings that never go back and none after `T`: the counters it hands on sum
to the amounts accounted at the epochs from `epoch(T) - k * E` to before `epoch(T)` (and at
`epoch(T)` with `with_current_epoch`), and every call to `Add` is passed `this_epoch_duration = E`
except the one for the epoch of the run's last call, which is passed `T - epoch(T)`. -/
theorem recentPeriod_stats_window {E : Int} {m : Nat} (hE : 0 < E) (hmax : m * E < 2 ^ 63)
    (calls : List (PeriodCall α)) (hmono : NowNondecreasing calls)
    (hnonneg : ∀ call ∈ calls, 0 ≤ call.now) {T : Int} (hT : 0 ≤ T)
    (hafter : ∀ call ∈ calls, call.now ≤ T) {k : Nat} (hk : k ≤ m) (withCurrentEpoch : Bool) :
    let rp := (new E (m * E) : RecentPeriod α).runCalls calls
    let start := epochOf E T - k * E
    rp.getStatsForPeriod T (k * E) withCurrentEpoch =
        windowSum E start (epochOf E T) withCurrentEpoch calls ∧
      ∀ c ∈ rp.statsAddCalls T (k * E) withCurrentEpoch,
        c.thisEpochDuration =
          if calls.getLast?.map (fun call => epochOf E call.now) =
              some (c.beforeThisEpochDuration + start) then T - epochOf E T
          else E := by
  intro rp start
  have hinv := ringInv_runCalls hE m calls hmono hnonneg
  have hcur := getEpochForDuration_eq hinv.epochDuration hT
  have hcur0 := epochOf_nonneg hE hT
  have hkm : (k : Int) * E ≤ m * E := Int.mul_le_mul_of_nonneg_right (by exact_mod_cast hk) hE.le
  have hk0 : (0 : Int) ≤ k * E := Int.mul_nonneg (Int.natCast_nonneg k) hE.le
  have hstart : kDurationMin < start := by
    unfold kDurationMin
    omega
  have hsorted := observedEpochs_pairwise hE hmono
  -- the query is the walk over the epochs the ring holds
  have hwalk : rp.statsAddCalls T (k * E) withCurrentEpoch =
      walkEpochs (accounted E calls) (epochOf E T) start (T - epochOf E T) E withCurrentEpoch 0
        ((observedEpochs E calls).take (m + 2)) := by
    unfold statsAddCalls
    rw [if_neg (by unfold kDurationMin; omega), hcur, hinv.size, ← age_zero hinv.index_lt]
    exact hinv.collect_eq _ withCurrentEpoch hstart (by omega) (m + 3) 0 (by omega)
  refine ⟨?_, fun c hc => ?_⟩
  · -- the epochs the ring has no room for are before the window
    have hold : ∀ e ∈ (observedEpochs E calls).drop (m + 2),
        inWindow start (epochOf E T) withCurrentEpoch e = false := by
      intro e he
      have hbound := add_mul_le_of_mem_drop hsorted
        (fun e he => by
          obtain ⟨c, -, rfl⟩ := exists_of_mem_observedEpochs E calls e he
          exact dvd_epochOf E c.now)
        (fun e he => by
          obtain ⟨c, hc, rfl⟩ := exists_of_mem_observedEpochs E calls e he
          exact epochOf_mono hE (hafter c hc))
        (m + 2) e he
      push_cast at hbound
      simp only [inWindow, Bool.and_eq_false_iff, decide_eq_false_iff_not]
      left
      linarith
    have htake : ((observedEpochs E calls).take (m + 2)).filter
          (inWindow start (epochOf E T) withCurrentEpoch) =
        (observedEpochs E calls).filter (inWindow start (epochOf E T) withCurrentEpoch) := by
      have hnil : ((observedEpochs E calls).drop (m + 2)).filter
          (inWindow start (epochOf E T) withCurrentEpoch) = [] :=
        List.filter_eq_nil_iff.2 fun e he => by simp [hold e he]
      conv_rhs => rw [← List.take_append_drop (m + 2) (observedEpochs E calls)]
      rw [List.filter_append, hnil, List.append_nil]
    unfold getStatsForPeriod
    rw [hwalk, sum_walkEpochs _ _ _ _ _ _ 0 (hsorted.sublist (List.take_sublist _ _)), htake]
    exact sum_accounted_filter E _ hsorted.nodup calls (epochOf_mem_observedEpochs E calls)
  · -- the walk starts at the newest epoch, the last call's
    rw [hwalk] at hc
    obtain ⟨e, -, -, hbefore, hthis⟩ :=
      mem_walkEpochs _ _ _ _ _ _ 0 (hsorted.nodup.sublist (List.take_sublist _ _)) c hc
    rw [hthis, hbefore, ← observedEpochs_head_eq, List.head?_take,
      if_neg (show ¬m + 2 = 0 by omega), sub_add_cancel]
    simp

/-- Epochs of ten ticks, a ring for one epoch: one tick accounted at 5, the query at 13. -/
theorem recentPeriod_stats_window_five :
    let calls : List (PeriodCall Nat) := [.account 5 1]
    (0 < (10 : Int) ∧ ((1 : Nat) : Int) * 10 < 2 ^ 63 ∧ NowNondecreasing calls ∧
        (∀ call ∈ calls, 0 ≤ call.now) ∧ (0 : Int) ≤ 13 ∧ (∀ call ∈ calls, call.now ≤ 13) ∧
        (1 : Nat) ≤ 1) ∧
      let rp := (new 10 ((1 : Nat) * 10) : RecentPeriod Nat).runCalls calls
      let start := epochOf 10 13 - (1 : Nat) * 10
      rp.getStatsForPeriod 13 ((1 : Nat) * 10) false = windowSum 10 start (epochOf 10 13) false calls ∧
        ∀ c ∈ rp.statsAddCalls 13 ((1 : Nat) * 10) false,
          c.thisEpochDuration =
            if calls.getLast?.map (fun call => epochOf 10 call.now) =
                some (c.beforeThisEpochDuration + start) then 13 - epochOf 10 13
            else 10 :=
  ⟨⟨by decide, by decide, by decide, by decide, by decide, by decide, by decide⟩,
    recentPeriod_stats_window (by decide) (by decide) _ (by decide) (by decide) (by decide)
      (by decide) (by decide) false⟩

/-- The bucket of epoch 0, completed by the query at 13, is handed to `Add` with the partial
duration `13 - 10 = 3`: the ring was not moved in the current epoch 10, so its current bucket is
epoch 0's. -/
theorem recentPeriod_completed_epoch_partial_duration :
    ((new 10 10 : RecentPeriod Nat).runCalls [.account 5 1]).statsAddCalls 13 10 false =
        [⟨1, 3, 0⟩] ∧
      epochOf 10 13 - 10 + 0 < epochOf 10 13 := by
  decide

end Query

end Statistics

end Utils

end Userver
