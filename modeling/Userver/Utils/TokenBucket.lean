import Userver.Lib.Machine
import Mathlib

/-!
# `utils::TokenBucket`

A token bucket (`token_bucket.cpp`) holds up to `max_size_` tokens.  `ObtainAll(count)` takes
`count` of them if it can; before that, `Update` adds `token_refill_amount_` tokens for each whole
`token_refill_interval_` since `last_update_`, never past `max_size_`.  When the refill would fill
the bucket, `last_update_` jumps to now and the partial interval is dropped; otherwise it moves by
the whole intervals only.  Time is `MockSteadyNow()`, a count of clock ticks; a call is modelled
with the reading it takes.

The model is single-threaded: each compare-and-swap succeeds at its first try.  Over every run from
the constructor with `max_size ≥ 1`, `amount ≥ 1` and `interval > 0`, and nondecreasing clock
readings (`bucket_rate`):

* the bucket never holds more than `max_size` tokens, and the refill `Update` adds never exceeds
  the free space (so its `size_t` products and sums stay below `max_size`);
* a refill is never lost while nothing is taken: after `j` more intervals a reading sees at least
  `min(max_size, k + amount * j)` tokens;
* up to time `t` the successful `ObtainAll` calls take at most
  `max_size + amount * (⌊(t - t₁) / interval⌋ + 1)` tokens, where `t₁` is the first call's time.

The `+ 1` is needed: the constructor sets `last_update_` to the clock's epoch `TimePoint{}`, so
the refill intervals are counted from there, not from the first call, and a bucket used first
just before an interval ends refills at its end (`bucket_refills_before_first_interval`).
-/

namespace Userver

namespace Utils

/-- `TokenBucket::RefillPolicy`: `amount` tokens every `interval` ticks. -/
structure RefillPolicy where
  amount : Nat
  interval : Int
  deriving DecidableEq, Repr

/-- The fields of a `TokenBucket`; durations and time points are counts of ticks. -/
structure TokenBucket where
  maxSize : Nat
  tokenRefillAmount : Nat
  tokenRefillInterval : Int
  tokens : Nat
  lastUpdate : Int
  deriving DecidableEq, Repr

namespace TokenBucket

/-! ## The member functions -/

/-- `TokenBucket()`: everything zero, `last_update_` the clock's epoch. -/
def empty : TokenBucket := ⟨0, 0, 0, 0, 0⟩

/-- `SetMaxSize(max_size)`: with a refill interval the tokens are cut down to the new size
(`SetMinAtomic`), without one the bucket is filled. -/
def setMaxSize (tb : TokenBucket) (maxSize : Nat) : TokenBucket :=
  if tb.tokenRefillInterval > 0 then { tb with maxSize := maxSize, tokens := min tb.tokens maxSize }
  else { tb with maxSize := maxSize, tokens := maxSize }

/-- The message `SetRefillPolicy` throws with. -/
def kNegativeInterval : String := "TokenBucket refill interval must be non-negative"

/-- `SetRefillPolicy(policy)`: an instant policy (interval zero) fills the bucket. -/
def setRefillPolicy (tb : TokenBucket) (policy : RefillPolicy) : Except String TokenBucket :=
  if policy.interval < 0 then .error kNegativeInterval
  else
    let tb := { tb with tokenRefillAmount := policy.amount, tokenRefillInterval := policy.interval }
    .ok (if policy.interval = 0 then { tb with tokens := tb.maxSize } else tb)

/-- `TokenBucket(max_size, policy)`. -/
def new (maxSize : Nat) (policy : RefillPolicy) : Except String TokenBucket :=
  (empty.setMaxSize maxSize).setRefillPolicy policy

/-- What `Update` commits to after `ticks` whole intervals since `updateTp`: the tokens to add
and the new `last_update_`.  When `amount` per interval would overflow the free space, all of it
and `now`; otherwise `amount * ticks` and `updateTp` moved by the whole intervals. -/
def refill (maxSize tokens amount : Nat) (interval updateTp now : Int) (ticks : Nat) : Nat × Int :=
  -- possible while updating max_size
  let spaceLeft := if maxSize > tokens then maxSize - tokens else 0
  if amount > spaceLeft / ticks then (spaceLeft, now)
  else (amount * ticks, updateTp + interval * ticks)

/-- `Update()` at the clock reading `now`. -/
def update (now : Int) (tb : TokenBucket) : TokenBucket :=
  if tb.maxSize = 0 ∨ tb.tokenRefillAmount = 0 ∨ tb.tokenRefillInterval = 0 then tb
  -- the clock went back
  else if now < tb.lastUpdate then { tb with lastUpdate := now }
  else if now = tb.lastUpdate then tb
  else
    let updateTicks := ((now - tb.lastUpdate) / tb.tokenRefillInterval).toNat
    if updateTicks = 0 then tb
    else
      -- `.1` is `tokens_to_add`, `.2` is `new_update_tp`
      let r := refill tb.maxSize tb.tokens tb.tokenRefillAmount tb.tokenRefillInterval tb.lastUpdate
        now updateTicks
      { tb with lastUpdate := r.2, tokens := tb.tokens + r.1 }

/-- `ObtainAll(count)` at the clock reading `now`: whether the tokens were taken. -/
def obtainAll (now : Int) (count : Nat) (tb : TokenBucket) : Bool × TokenBucket :=
  -- not satisfiable
  if tb.maxSize < count then (false, tb)
  else
    let tb := tb.update now
    -- no need to subtract
    if count = 0 ∨ (tb.tokenRefillInterval = 0 ∧ tb.tokenRefillAmount ≠ 0) then (true, tb)
    else if tb.tokens < count then (false, tb)
    else (true, { tb with tokens := tb.tokens - count })

/-- `Obtain()`. -/
def obtain (now : Int) (tb : TokenBucket) : Bool × TokenBucket := tb.obtainAll now 1

/-- `GetTokensApprox()`. -/
def getTokensApprox (now : Int) (tb : TokenBucket) : Nat × TokenBucket :=
  let tb := tb.update now
  (tb.tokens, tb)

end TokenBucket

/-! ## Runs -/

/-- A call to the bucket, with the clock reading it takes. -/
inductive BucketCall where
  | obtainAll (now : Int) (count : Nat)
  | getTokensApprox (now : Int)
  deriving DecidableEq, Repr

/-- The clock reading of a call. -/
def BucketCall.now : BucketCall → Int
  | .obtainAll now _ => now
  | .getTokensApprox now => now

/-- What a call returns. -/
inductive BucketAnswer where
  | obtained (ok : Bool)
  | tokens (n : Nat)
  deriving DecidableEq, Repr

/-- One call. -/
def bucketStep (tb : TokenBucket) : BucketCall → BucketAnswer × TokenBucket
  | .obtainAll now count => (.obtained (tb.obtainAll now count).1, (tb.obtainAll now count).2)
  | .getTokensApprox now => (.tokens (tb.getTokensApprox now).1, (tb.getTokensApprox now).2)

/-- The tokens a call hands out: the count of an `ObtainAll` that answered `true`. -/
def taken : BucketCall → BucketAnswer → Nat
  | .obtainAll _ count, .obtained true => count
  | _, _ => 0

/-- The tokens a list of calls hands out. -/
def handedOut (calls : List BucketCall) (answers : List BucketAnswer) : Nat :=
  (List.zipWith taken calls answers).sum

/-- Clock readings that never go back. -/
def Nondecreasing (calls : List BucketCall) : Prop :=
  calls.Pairwise fun a b => a.now ≤ b.now

instance : DecidablePred Nondecreasing := fun calls =>
  inferInstanceAs (Decidable (calls.Pairwise fun a b => a.now ≤ b.now))

/-- `⌈x / d⌉` for `d > 0`: the floor division of `-x`, negated. -/
def divCeil (x d : Int) : Int := -(-x / d)

/-! ## Floor and ceiling division by a positive interval -/

section Div

variable {I : Int} (hI : 0 < I)
include hI

theorem ediv_add_ediv_le (x y : Int) : x / I + y / I ≤ (x + y) / I := by
  apply Int.le_ediv_of_mul_le hI
  have hx := Int.mul_ediv_self_le (x := x) hI.ne'
  have hy := Int.mul_ediv_self_le (x := y) hI.ne'
  linarith

theorem divCeil_add_mul (x k : Int) : divCeil (x + I * k) I = divCeil x I + k := by
  unfold divCeil
  rw [show -(x + I * k) = -x + I * -k by ring, Int.add_mul_ediv_left _ _ hI.ne']
  ring

theorem ediv_add_divCeil_le (x y : Int) : x / I + divCeil y I ≤ divCeil (x + y) I := by
  unfold divCeil
  have := ediv_add_ediv_le hI x (-(x + y))
  rw [show x + -(x + y) = -y by ring] at this
  linarith

theorem divCeil_mono {x y : Int} (h : x ≤ y) : divCeil x I ≤ divCeil y I := by
  unfold divCeil
  have := Int.ediv_le_ediv hI (show -y ≤ -x by omega)
  omega

theorem divCeil_nonneg {x : Int} (h : -I < x) : 0 ≤ divCeil x I := by
  unfold divCeil
  have : -x / I < 1 := (Int.ediv_lt_iff_lt_mul hI).2 (by omega)
  omega

/-- The whole intervals in a nonnegative span, as `Update` counts them. -/
theorem toNat_ediv {x : Int} (hx : 0 ≤ x) : ((x / I).toNat : Int) = x / I :=
  Int.toNat_of_nonneg (Int.ediv_nonneg hx hI.le)

/-- What is left of a span after its whole intervals is less than one interval. -/
theorem sub_mul_ediv_lt (x : Int) : x - I * (x / I) < I := by
  have := Int.lt_mul_ediv_self_add (x := x) hI
  omega

end Div

namespace TokenBucket

/-! ## What `Update` does -/

section Update

variable {M A : Nat} {I : Int}

/-- The configuration a run keeps: `max_size_`, the refill amount and the refill interval. -/
structure HasConfig (M A : Nat) (I : Int) (tb : TokenBucket) : Prop where
  maxSize : tb.maxSize = M
  amount : tb.tokenRefillAmount = A
  interval : tb.tokenRefillInterval = I

theorem update_config {tb : TokenBucket} (h : tb.HasConfig M A I) (now : Int) :
    (tb.update now).HasConfig M A I := by
  unfold update
  dsimp only
  split_ifs <;> exact ⟨h.maxSize, h.amount, h.interval⟩

/-- The tokens `Update` adds fit in the free space, so `tokens_ + tokens_to_add` never passes
`max_size_`; the product `amount * ticks` is only formed when it fits there too. -/
theorem refill_fst_le (maxSize tokens amount : Nat) (interval updateTp now : Int) {ticks : Nat}
    (hticks : 0 < ticks) :
    (refill maxSize tokens amount interval updateTp now ticks).1 ≤ maxSize - tokens := by
  unfold refill
  dsimp only
  rw [show (if maxSize > tokens then maxSize - tokens else 0) = maxSize - tokens by split_ifs <;> omega]
  split_ifs with hfill
  · exact le_rfl
  · -- `amount ≤ space_left / ticks`, so `amount * ticks ≤ space_left`
    exact (Nat.le_div_iff_mul_le hticks).1 (Nat.le_of_not_lt hfill)

variable (hM : 0 < M) (hA : 0 < A) (hI : 0 < I)
include hM hA hI

/-- The three things `Update` does when the clock has not gone back, with `k` the whole intervals
since `last_update_`: nothing (`k = 0`), fill the bucket and set `last_update_` to now (the
refill would overflow the free space), or add `amount` per interval and move `last_update_` by
the whole intervals. -/
theorem update_cases {tb : TokenBucket} (h : tb.HasConfig M A I) (htok : tb.tokens ≤ M)
    {now : Int} (hle : tb.lastUpdate ≤ now) :
    let k := ((now - tb.lastUpdate) / I).toNat
    (k = 0 ∧ tb.update now = tb) ∨
      (0 < k ∧ M - tb.tokens < A * k ∧ tb.update now = { tb with tokens := M, lastUpdate := now }) ∨
      (0 < k ∧ A * k ≤ M - tb.tokens ∧
        tb.update now = { tb with tokens := tb.tokens + A * k, lastUpdate := tb.lastUpdate + I * k }) := by
  obtain ⟨M', A', I', τ, L⟩ := tb
  obtain ⟨hM', hA', hI'⟩ := h
  dsimp only at hM' hA' hI' htok hle ⊢
  subst M' A' I'
  unfold update refill
  dsimp only
  rw [show (if M > τ then M - τ else 0) = M - τ by split_ifs <;> omega]
  split_ifs with hoff hback heq hzero hfill
  · omega
  · omega
  · -- no time has passed
    subst heq
    exact .inl ⟨by simp, rfl⟩
  · exact .inl ⟨hzero, rfl⟩
  · -- the refill would overflow the free space: fill the bucket
    have hlt := (Nat.div_lt_iff_lt_mul (Nat.pos_of_ne_zero hzero)).1 hfill
    exact .inr (.inl ⟨Nat.pos_of_ne_zero hzero, hlt, by simp only [mk.injEq, and_true, true_and]; omega⟩)
  · have hmul := (Nat.le_div_iff_mul_le (Nat.pos_of_ne_zero hzero)).1 (Nat.le_of_not_lt hfill)
    exact .inr (.inr ⟨Nat.pos_of_ne_zero hzero, hmul, rfl⟩)

/-- The clock went back: `Update` only moves `last_update_` back to now. -/
theorem update_of_lt {tb : TokenBucket} (h : tb.HasConfig M A I) {now : Int}
    (hlt : now < tb.lastUpdate) : tb.update now = { tb with lastUpdate := now } := by
  have hon : ¬(tb.maxSize = 0 ∨ tb.tokenRefillAmount = 0 ∨ tb.tokenRefillInterval = 0) := by
    rw [h.maxSize, h.amount, h.interval]
    omega
  unfold update
  rw [if_neg hon, if_pos hlt]

/-- `Update` never takes tokens away and never fills past `max_size_`. -/
theorem update_tokens {tb : TokenBucket} (h : tb.HasConfig M A I) (htok : tb.tokens ≤ M)
    (now : Int) : tb.tokens ≤ (tb.update now).tokens ∧ (tb.update now).tokens ≤ M := by
  rcases lt_or_ge now tb.lastUpdate with hlt | hle
  · rw [update_of_lt hM hA hI h hlt]
    exact ⟨le_rfl, htok⟩
  rcases update_cases hM hA hI h htok hle with ⟨-, hu⟩ | ⟨-, -, hu⟩ | ⟨-, hadd, hu⟩ <;>
    simp only [hu] <;> omega

/-- After `Update` at `now`, `last_update_` is at most one interval behind now. -/
theorem update_lastUpdate {tb : TokenBucket} (h : tb.HasConfig M A I) (htok : tb.tokens ≤ M)
    (now : Int) : now - I < (tb.update now).lastUpdate ∧ (tb.update now).lastUpdate ≤ now := by
  rcases lt_or_ge now tb.lastUpdate with hlt | hle
  · rw [update_of_lt hM hA hI h hlt]
    dsimp only
    omega
  -- `k` whole intervals leave less than one interval of the span behind
  have hk := toNat_ediv hI (sub_nonneg.2 hle)
  have hrem := sub_mul_ediv_lt hI (now - tb.lastUpdate)
  have hmul := Int.mul_ediv_self_le (x := now - tb.lastUpdate) hI.ne'
  rcases update_cases hM hA hI h htok hle with ⟨hzero, hu⟩ | ⟨-, -, hu⟩ | ⟨-, -, hu⟩ <;> simp only [hu]
  · rw [hzero] at hk
    rw [← hk] at hrem
    omega
  · omega
  · rw [hk]
    omega

end Update

/-! ## What one call does -/

section Step

variable {M A : Nat} {I : Int}

@[simp] theorem handedOut_cons (call : BucketCall) (calls : List BucketCall) (answer : BucketAnswer)
    (answers : List BucketAnswer) :
    handedOut (call :: calls) (answer :: answers) = taken call answer + handedOut calls answers := by
  simp [handedOut]

/-- One call leaves the bucket alone (`ObtainAll` of more than `max_size_`), runs `Update`, or
runs `Update` and takes the tokens it hands out. -/
theorem bucketStep_cases {tb : TokenBucket} (h : tb.HasConfig M A I) (hI : I ≠ 0) (call : BucketCall) :
    let r := bucketStep tb call
    (r.2 = tb ∧ taken call r.1 = 0) ∨ (r.2 = tb.update call.now ∧ taken call r.1 = 0) ∨
      (0 < taken call r.1 ∧ taken call r.1 ≤ (tb.update call.now).tokens ∧
        r.2 = { tb.update call.now with tokens := (tb.update call.now).tokens - taken call r.1 }) := by
  cases call with
  | getTokensApprox now => exact .inr (.inl ⟨rfl, rfl⟩)
  | obtainAll now count =>
    have hu := update_config h now
    simp only [bucketStep, obtainAll, BucketCall.now]
    split_ifs with hmax hfree hfew
    · exact .inl ⟨rfl, rfl⟩
    · -- nothing to subtract: the instant policy is not this configuration, so `count` is zero
      have hzero : count = 0 := by
        rcases hfree with h0 | ⟨hinstant, -⟩
        · exact h0
        · exact absurd (hu.interval ▸ hinstant) hI
      subst hzero
      exact .inr (.inl ⟨rfl, rfl⟩)
    · exact .inr (.inl ⟨rfl, rfl⟩)
    · exact .inr (.inr ⟨by simp only [taken]; omega, by simp only [taken]; omega, rfl⟩)

end Step

/-! ## The rate bound -/

/-- What a run keeps towards the rate bound, with `t₁` the first call's time and `tprev` the
latest call's: `last_update_` is not in the future, and what was handed out plus what is left is at
most `M`, and `A` for each interval that can have ended between `t₁` and `last_update_`. -/
def RateBound (M A : Nat) (I t1 tprev : Int) (handed : Nat) (tb : TokenBucket) : Prop :=
  tb.lastUpdate ≤ tprev ∧ (handed : Int) + tb.tokens ≤ M + A * divCeil (tb.lastUpdate - t1) I

/-- The invariant of a run from the constructor: the configuration, at most `M` tokens, and either
the bucket is still full with nothing handed out, or the rate bound. -/
structure RateInv (M A : Nat) (I t1 tprev : Int) (handed : Nat) (tb : TokenBucket) : Prop where
  config : tb.HasConfig M A I
  tokens_le : tb.tokens ≤ M
  full_or_bound : (handed = 0 ∧ tb.tokens = M) ∨ RateBound M A I t1 tprev handed tb

section Rate

variable {M A : Nat} {I t1 : Int} (hM : 0 < M) (hA : 0 < A) (hI : 0 < I)

theorem RateBound.mono {tprev t : Int} {handed : Nat} {tb : TokenBucket}
    (h : RateBound M A I t1 tprev handed tb) (ht : tprev ≤ t) : RateBound M A I t1 t handed tb :=
  ⟨h.1.trans ht, h.2⟩

theorem RateInv.mono {tprev t : Int} {handed : Nat} {tb : TokenBucket}
    (h : RateInv M A I t1 tprev handed tb) (ht : tprev ≤ t) : RateInv M A I t1 t handed tb :=
  ⟨h.config, h.tokens_le, h.full_or_bound.imp id fun hb => hb.mono ht⟩

/-- Taking tokens moves them from the bucket to what was handed out. -/
theorem RateBound.take {t : Int} {handed n : Nat} {tb : TokenBucket}
    (h : RateBound M A I t1 t handed tb) (hn : n ≤ tb.tokens) :
    RateBound M A I t1 t (handed + n) { tb with tokens := tb.tokens - n } := by
  obtain ⟨hlast, hbound⟩ := h
  refine ⟨hlast, ?_⟩
  dsimp only
  push_cast [Nat.cast_sub hn]
  linarith

include hM hA hI

/-- `Update` on a full bucket leaves it full, with `last_update_` less than one interval behind
now: the rate bound holds with nothing handed out. -/
theorem rateBound_update_full {tb : TokenBucket} (h : tb.HasConfig M A I) (hfull : tb.tokens = M)
    {now : Int} (hnow : t1 ≤ now) : RateBound M A I t1 now 0 (tb.update now) := by
  have htok := update_tokens hM hA hI h hfull.le now
  have hlast := update_lastUpdate hM hA hI h hfull.le now
  have hc : 0 ≤ divCeil ((tb.update now).lastUpdate - t1) I := divCeil_nonneg hI (by omega)
  have hmul : (0 : Int) ≤ A * divCeil ((tb.update now).lastUpdate - t1) I :=
    mul_nonneg (Int.natCast_nonneg A) hc
  exact ⟨hlast.2, by push_cast; omega⟩

/-- `Update` keeps the rate bound: a refill that fills the bucket drops what it cannot add, and one
that adds `A` per interval moves `last_update_` by as many intervals. -/
theorem RateBound.update {tprev now : Int} {handed : Nat} {tb : TokenBucket} (h : tb.HasConfig M A I)
    (htok : tb.tokens ≤ M) (hb : RateBound M A I t1 tprev handed tb) (hnow : tprev ≤ now) :
    RateBound M A I t1 now handed (tb.update now) := by
  obtain ⟨hlast, hbound⟩ := hb
  have hle : tb.lastUpdate ≤ now := hlast.trans hnow
  have hk := toNat_ediv hI (sub_nonneg.2 hle)
  have hmul := Int.mul_ediv_self_le (x := now - tb.lastUpdate) hI.ne'
  rcases update_cases hM hA hI h htok hle with ⟨-, hu⟩ | ⟨-, hfill, hu⟩ | ⟨-, -, hu⟩ <;>
    rw [hu]
  · exact ⟨hle, hbound⟩
  · -- the refill fills the bucket: the whole intervals it drops were worth more than the space
    have hspace : (M : Int) - tb.tokens < A * ((now - tb.lastUpdate) / I) := by
      have hcast := Nat.cast_lt (α := Int).2 hfill
      push_cast [Nat.cast_sub htok] at hcast
      rwa [← hk]
    have hsum := ediv_add_divCeil_le hI (now - tb.lastUpdate) (tb.lastUpdate - t1)
    rw [show now - tb.lastUpdate + (tb.lastUpdate - t1) = now - t1 by ring] at hsum
    have hmono := mul_le_mul_of_nonneg_left hsum (Int.natCast_nonneg A)
    refine ⟨le_rfl, ?_⟩
    dsimp only
    rw [mul_add] at hmono
    linarith
  · -- the refill adds `A` per interval and moves `last_update_` by the intervals
    refine ⟨by dsimp only; rw [hk]; omega, ?_⟩
    dsimp only
    rw [show tb.lastUpdate + I * (((now - tb.lastUpdate) / I).toNat : Int) - t1 =
        tb.lastUpdate - t1 + I * (((now - tb.lastUpdate) / I).toNat : Int) by ring,
      divCeil_add_mul hI]
    push_cast
    linarith

/-- One call keeps the invariant, the tokens it hands out counted. -/
theorem RateInv.step {tprev : Int} {handed : Nat} {tb : TokenBucket}
    (h : RateInv M A I t1 tprev handed tb) {call : BucketCall} (hprev : tprev ≤ call.now)
    (hfirst : t1 ≤ call.now) :
    RateInv M A I t1 call.now (handed + taken call (bucketStep tb call).1) (bucketStep tb call).2 := by
  have hconf := update_config h.config call.now
  have htok := update_tokens hM hA hI h.config h.tokens_le call.now
  -- whatever the call does after `Update`, the rate bound holds after the `Update`
  have hbound : RateBound M A I t1 call.now handed (tb.update call.now) := by
    rcases h.full_or_bound with ⟨rfl, hfull⟩ | hb
    · exact rateBound_update_full hM hA hI h.config hfull hfirst
    · exact hb.update hM hA hI h.config h.tokens_le hprev
  rcases bucketStep_cases h.config hI.ne' call with ⟨hs, ht⟩ | ⟨hs, ht⟩ | ⟨-, hn, hs⟩ <;>
    rw [hs]
  · rw [ht, Nat.add_zero]
    exact h.mono hprev
  · rw [ht, Nat.add_zero]
    exact ⟨hconf, htok.2, .inr hbound⟩
  · refine ⟨⟨hconf.maxSize, hconf.amount, hconf.interval⟩, by dsimp only; omega, .inr ?_⟩
    exact hbound.take hn

/-- Every run keeps the invariant up to any time `t` no call passes. -/
theorem RateInv.run {t : Int} :
    ∀ (calls : List BucketCall) {tprev : Int} {handed : Nat} {tb : TokenBucket},
      RateInv M A I t1 tprev handed tb → t1 ≤ tprev → tprev ≤ t →
      (∀ call ∈ calls, tprev ≤ call.now ∧ call.now ≤ t) → Nondecreasing calls →
      RateInv M A I t1 t (handed + handedOut calls (Machine.run bucketStep tb calls).1)
        (Machine.run bucketStep tb calls).2
  | [], _, _, _, h, _, ht, _, _ => by simpa [handedOut] using h.mono ht
  | call :: calls, tprev, handed, tb, h, hfirst, ht, hcalls, hmono => by
    obtain ⟨hafter, hrest⟩ := List.pairwise_cons.1 hmono
    have hcall := hcalls call List.mem_cons_self
    have hstep := h.step hM hA hI hcall.1 (hfirst.trans hcall.1)
    have := RateInv.run calls hstep (hfirst.trans hcall.1) hcall.2
      (fun c hc => ⟨hafter c hc, (hcalls c (List.mem_cons_of_mem _ hc)).2⟩) hrest
    simpa [Nat.add_assoc] using this

omit hA in
/-- The tokens a run has handed out up to `t`. -/
theorem RateInv.handed_le {t : Int} {handed : Nat} {tb : TokenBucket}
    (h : RateInv M A I t1 t handed tb) (ht : t1 ≤ t) :
    (handed : Int) ≤ M + A * divCeil (t - t1) I := by
  have hmul : (0 : Int) ≤ A * divCeil (t - t1) I :=
    mul_nonneg (Int.natCast_nonneg A) (divCeil_nonneg hI (by omega))
  rcases h.full_or_bound with ⟨rfl, -⟩ | ⟨hlast, hbound⟩
  · push_cast
    omega
  · have hmono := mul_le_mul_of_nonneg_left (divCeil_mono hI (show tb.lastUpdate - t1 ≤ t - t1 by omega))
      (Int.natCast_nonneg A)
    have : (0 : Int) ≤ tb.tokens := Int.natCast_nonneg _
    linarith

end Rate

/-! ## No refill is lost -/

/-- The tokens a reading at `t` would see if nothing were taken before it: those in the bucket and
the refills of the whole intervals since `last_update_`, up to `max_size_`. -/
def reach (tb : TokenBucket) (t : Int) : Nat :=
  min tb.maxSize
    (tb.tokens + tb.tokenRefillAmount * ((t - tb.lastUpdate) / tb.tokenRefillInterval).toNat)

/-- What every call keeps, whatever the clock does: the configuration and at most `M` tokens. -/
structure Bounded (M A : Nat) (I : Int) (tb : TokenBucket) : Prop where
  config : tb.HasConfig M A I
  tokens_le : tb.tokens ≤ M

section Reach

variable {M A : Nat} {I : Int} (hM : 0 < M) (hA : 0 < A) (hI : 0 < I)
include hM hA hI

theorem Bounded.step {tb : TokenBucket} (h : Bounded M A I tb) (call : BucketCall) :
    Bounded M A I (bucketStep tb call).2 := by
  have hconf := update_config h.config call.now
  have htok := update_tokens hM hA hI h.config h.tokens_le call.now
  rcases bucketStep_cases h.config hI.ne' call with ⟨hs, -⟩ | ⟨hs, -⟩ | ⟨-, -, hs⟩ <;> rw [hs]
  · exact h
  · exact ⟨hconf, htok.2⟩
  · exact ⟨⟨hconf.maxSize, hconf.amount, hconf.interval⟩, by dsimp only; omega⟩

/-- A bucket that is full, or whose `last_update_` is not after `t`, stays so through every call
at a time not after `t`. -/
theorem full_or_past_step {t : Int} {tb : TokenBucket} (h : Bounded M A I tb)
    (hfull : tb.tokens = M ∨ tb.lastUpdate ≤ t) {call : BucketCall} (hcall : call.now ≤ t) :
    (bucketStep tb call).2.tokens = M ∨ (bucketStep tb call).2.lastUpdate ≤ t := by
  have hlast := update_lastUpdate hM hA hI h.config h.tokens_le call.now
  rcases bucketStep_cases h.config hI.ne' call with ⟨hs, -⟩ | ⟨hs, -⟩ | ⟨-, -, hs⟩ <;> rw [hs]
  · exact hfull
  · exact .inr (hlast.2.trans hcall)
  · exact .inr (hlast.2.trans hcall)

/-- `Update` at a time not after `t` loses nothing of what a reading at `t` would see: a refill
that fills the bucket reaches `max_size_`, one that adds `A` per interval only moves the intervals
into the bucket, and a clock that went back only adds intervals before `t`. -/
theorem reach_update {tb : TokenBucket} (h : tb.HasConfig M A I) (htok : tb.tokens ≤ M) {u t : Int}
    (hut : u ≤ t) : reach tb t ≤ reach (tb.update u) t := by
  have hconf := update_config h u
  unfold reach
  rw [h.maxSize, h.amount, h.interval, hconf.maxSize, hconf.amount, hconf.interval]
  rcases lt_or_ge u tb.lastUpdate with hlt | hle
  · rw [update_of_lt hM hA hI h hlt]
    have hmore : (t - tb.lastUpdate) / I ≤ (t - u) / I := Int.ediv_le_ediv hI (by omega)
    exact min_le_min_left _
      (Nat.add_le_add_left (Nat.mul_le_mul_left _ (Int.toNat_le_toNat hmore)) _)
  have hk := toNat_ediv hI (sub_nonneg.2 hle)
  rcases update_cases hM hA hI h htok hle with ⟨-, hu⟩ | ⟨-, -, hu⟩ | ⟨-, -, hu⟩
  · simp only [hu, le_refl]
  · simp only [hu]
    rw [Nat.min_eq_left (Nat.le_add_right _ _)]
    exact min_le_left _ _
  · -- the intervals moved into the bucket are the ones `last_update_` moved past
    simp only [hu]
    set k := ((u - tb.lastUpdate) / I).toNat
    have hX : (k : Int) ≤ (t - tb.lastUpdate) / I := hk ▸ Int.ediv_le_ediv hI (by omega)
    have hsplit : ((t - (tb.lastUpdate + I * k)) / I).toNat = ((t - tb.lastUpdate) / I).toNat - k := by
      rw [show t - (tb.lastUpdate + I * k) = t - tb.lastUpdate + I * -(k : Int) by ring,
        Int.add_mul_ediv_left _ _ hI.ne']
      omega
    have hsum : A * k + A * (((t - tb.lastUpdate) / I).toNat - k) = A * ((t - tb.lastUpdate) / I).toNat := by
      rw [← Nat.mul_add, Nat.add_sub_cancel' (by omega)]
    rw [hsplit, Nat.add_assoc, hsum]

/-- Right after `Update` at `t`, a reading at `t` sees the bucket: less than one interval is left. -/
theorem reach_update_self {tb : TokenBucket} (h : tb.HasConfig M A I) (htok : tb.tokens ≤ M)
    (t : Int) : reach (tb.update t) t = (tb.update t).tokens := by
  have hconf := update_config h t
  have hlast := update_lastUpdate hM hA hI h htok t
  have hzero : (t - (tb.update t).lastUpdate) / I = 0 := Int.ediv_eq_zero_of_lt (by omega) (by omega)
  unfold reach
  rw [hconf.maxSize, hconf.interval, hzero]
  simpa using (update_tokens hM hA hI h htok t).2

/-- A call that hands out nothing loses nothing of what a reading at `t` would see. -/
theorem reach_step {t : Int} {tb : TokenBucket} (h : Bounded M A I tb) {call : BucketCall}
    (hcall : call.now ≤ t) (hnone : taken call (bucketStep tb call).1 = 0) :
    reach tb t ≤ reach (bucketStep tb call).2 t := by
  rcases bucketStep_cases h.config hI.ne' call with ⟨hs, -⟩ | ⟨hs, -⟩ | ⟨hpos, -, -⟩
  · rw [hs]
  · rw [hs]
    exact reach_update hM hA hI h.config h.tokens_le hcall
  · omega

/-- Calls that hand out nothing lose nothing of what a reading at `t` would see. -/
theorem reach_run {t : Int} :
    ∀ (calls : List BucketCall) {tb : TokenBucket}, Bounded M A I tb →
      (∀ call ∈ calls, call.now ≤ t) → handedOut calls (Machine.run bucketStep tb calls).1 = 0 →
      reach tb t ≤ reach (Machine.run bucketStep tb calls).2 t
  | [], _, _, _, _ => le_rfl
  | call :: calls, tb, h, hcalls, hnone => by
    simp only [Machine.run_cons, handedOut_cons, Nat.add_eq_zero_iff] at hnone ⊢
    have hcall := hcalls call List.mem_cons_self
    exact (reach_step hM hA hI h hcall hnone.1).trans
      (reach_run calls (h.step hM hA hI call) (fun c hc => hcalls c (List.mem_cons_of_mem _ hc)) hnone.2)

omit hM hA in
/-- A bucket that is full, or whose `last_update_` is not after `t`, would show at least `A` more
tokens for each interval after `t`, up to `max_size_`. -/
theorem min_le_reach {t : Int} {tb : TokenBucket} (h : Bounded M A I tb)
    (hfull : tb.tokens = M ∨ tb.lastUpdate ≤ t) (j : Nat) :
    min M (tb.tokens + A * j) ≤ reach tb (t + j * I) := by
  unfold reach
  rw [h.config.maxSize, h.config.amount, h.config.interval]
  rcases hfull with hfull | hlast
  · rw [hfull, Nat.min_eq_left (Nat.le_add_right _ _), Nat.min_eq_left (Nat.le_add_right _ _)]
  · have hj : (j : Int) ≤ (t + j * I - tb.lastUpdate) / I := Int.le_ediv_of_mul_le hI (by linarith)
    exact min_le_min_left _ (Nat.add_le_add_left (Nat.mul_le_mul_left _ (by omega)) _)

end Reach

/-! ## Runs from the constructor -/

section Runs

variable {M A : Nat} {I : Int}

/-- `TokenBucket(max_size, {amount, interval})` with a positive interval: the bucket starts full,
with `last_update_` at the clock's epoch. -/
theorem new_eq (hI : 0 < I) : new M ⟨A, I⟩ = .ok ⟨M, A, I, M, 0⟩ := by
  unfold new setMaxSize setRefillPolicy empty
  simp [show ¬I < 0 by omega, show I ≠ 0 by omega]

/-- The three parts of the bucket's contract, over every run from the constructor with
`max_size ≥ 1`, `amount ≥ 1`, `interval > 0` and clock readings that never go back:

* the bucket holds at most `M` tokens, and the refill of the next `Update` fits in what is left;
* the calls up to `t` hand out at most `M + A * ⌈(t - t₁) / I⌉` tokens, `t₁` the first call's time;
* a reading `j` intervals after `t`, with nothing taken since the calls up to `t`, sees at least
  `min(M, k + A * j)` tokens, `k` the tokens the calls up to `t` left. -/
theorem bucket_rate (hM : 0 < M) (hA : 0 < A) (hI : 0 < I) {tb : TokenBucket}
    (hnew : new M ⟨A, I⟩ = .ok tb) (calls : List BucketCall) (hmono : Nondecreasing calls) :
    let r := Machine.run bucketStep tb calls
    (r.2.tokens ≤ M ∧
      ∀ (now : Int) (ticks : Nat), 0 < ticks →
        r.2.tokens + (refill M r.2.tokens A I r.2.lastUpdate now ticks).1 ≤ M) ∧
    (∀ first ∈ calls.head?, ∀ t : Int, (∀ call ∈ calls, call.now ≤ t) →
      (handedOut calls r.1 : Int) ≤ M + A * divCeil (t - first.now) I) ∧
    (∀ (t : Int) (j : Nat) (more : List BucketCall), (∀ call ∈ calls, call.now ≤ t) →
      (∀ call ∈ more, call.now ≤ t + j * I) →
      handedOut more (Machine.run bucketStep r.2 more).1 = 0 →
      min M (r.2.tokens + A * j) ≤
        ((Machine.run bucketStep r.2 more).2.getTokensApprox (t + j * I)).1) := by
  intro r
  rw [new_eq hI] at hnew
  cases hnew
  have hstart : Bounded M A I ⟨M, A, I, M, 0⟩ := ⟨⟨rfl, rfl, rfl⟩, le_rfl⟩
  have hbounded : Bounded M A I r.2 :=
    Machine.run_invariant _ (fun s call hs => hs.step hM hA hI call) calls _ hstart
  refine ⟨⟨hbounded.tokens_le, fun now ticks hticks => ?_⟩, ?_, ?_⟩
  · have := refill_fst_le M r.2.tokens A I r.2.lastUpdate now hticks
    have := hbounded.tokens_le
    omega
  · -- the rate bound, counted from the first call
    intro first hfirst t ht
    obtain ⟨rest, rfl⟩ : ∃ rest, calls = first :: rest := by
      cases calls with
      | nil => simp at hfirst
      | cons call rest =>
        simp only [List.head?_cons, Option.mem_def, Option.some.injEq] at hfirst
        exact ⟨rest, by rw [hfirst]⟩
    have hafter := (List.pairwise_cons.1 hmono).1
    have htfirst := ht first List.mem_cons_self
    have hfull : RateInv M A I first.now first.now 0 ⟨M, A, I, M, 0⟩ :=
      ⟨⟨rfl, rfl, rfl⟩, le_rfl, .inl ⟨rfl, rfl⟩⟩
    have hcalls : ∀ call ∈ first :: rest, first.now ≤ call.now ∧ call.now ≤ t := by
      intro call hcall
      rcases List.mem_cons.1 hcall with rfl | hrest
      · exact ⟨le_rfl, htfirst⟩
      · exact ⟨hafter call hrest, ht call hcall⟩
    have hinv := RateInv.run hM hA hI (first :: rest) hfull le_rfl htfirst hcalls hmono
    have hle := hinv.handed_le hM hI htfirst
    rw [Nat.zero_add] at hle
    exact hle
  · -- no refill is lost: what a reading would see only grows while nothing is taken
    intro t j more hcalls hmore hnone
    have hfull : r.2.tokens = M ∨ r.2.lastUpdate ≤ t :=
      (Machine.run_invariant_of_forall (fun s => Bounded M A I s ∧ (s.tokens = M ∨ s.lastUpdate ≤ t))
        (fun call => call.now ≤ t)
        (fun s call hcall hs => ⟨hs.1.step hM hA hI call, full_or_past_step hM hA hI hs.1 hs.2 hcall⟩)
        calls _ hcalls ⟨hstart, .inl rfl⟩).2
    set s := (Machine.run bucketStep r.2 more).2
    have hs : Bounded M A I s :=
      Machine.run_invariant _ (fun s call hs => hs.step hM hA hI call) more _ hbounded
    calc min M (r.2.tokens + A * j)
        ≤ reach r.2 (t + j * I) := min_le_reach hI hbounded hfull j
      _ ≤ reach s (t + j * I) := reach_run hM hA hI more hbounded hmore hnone
      _ ≤ reach (s.update (t + j * I)) (t + j * I) :=
          reach_update hM hA hI hs.config hs.tokens_le le_rfl
      _ = (s.getTokensApprox (t + j * I)).1 := reach_update_self hM hA hI hs.config hs.tokens_le _

/-- A bucket of one token refilled every ten ticks, taken at 9 and again at 10. -/
theorem bucket_rate_one_per_ten :
    let calls := [BucketCall.obtainAll 9 1, .obtainAll 10 1]
    (0 < 1 ∧ 0 < 1 ∧ (0 : Int) < 10 ∧ new 1 ⟨1, 10⟩ = .ok ⟨1, 1, 10, 1, 0⟩ ∧ Nondecreasing calls) ∧
      let r := Machine.run bucketStep ⟨1, 1, 10, 1, 0⟩ calls
      (r.2.tokens ≤ 1 ∧
        ∀ (now : Int) (ticks : Nat), 0 < ticks →
          r.2.tokens + (refill 1 r.2.tokens 1 10 r.2.lastUpdate now ticks).1 ≤ 1) ∧
      (∀ first ∈ calls.head?, ∀ t : Int, (∀ call ∈ calls, call.now ≤ t) →
        (handedOut calls r.1 : Int) ≤ 1 + 1 * divCeil (t - first.now) 10) ∧
      (∀ (t : Int) (j : Nat) (more : List BucketCall), (∀ call ∈ calls, call.now ≤ t) →
        (∀ call ∈ more, call.now ≤ t + j * 10) →
        handedOut more (Machine.run bucketStep r.2 more).1 = 0 →
        min 1 (r.2.tokens + 1 * j) ≤
          ((Machine.run bucketStep r.2 more).2.getTokensApprox (t + j * 10)).1) :=
  ⟨⟨by decide, by decide, by decide, new_eq (by decide), by decide⟩,
    bucket_rate (by decide) (by decide) (by decide) (new_eq (by decide)) _ (by decide)⟩

/-- The bound the other way round: with `M = A = 1` and `I = 10`, the calls at 9 and at 10 both
get their token, because the constructor counts the intervals from the epoch and one ends at 10.
Two tokens are handed out up to `t = 10`, one more than `M + A * ⌊(t - t₁) / I⌋ = 1`. -/
theorem bucket_refills_before_first_interval :
    let calls := [BucketCall.obtainAll 9 1, .obtainAll 10 1]
    new 1 ⟨1, 10⟩ = .ok ⟨1, 1, 10, 1, 0⟩ ∧ Nondecreasing calls ∧
      (Machine.run bucketStep ⟨1, 1, 10, 1, 0⟩ calls).1 = [.obtained true, .obtained true] ∧
      (handedOut calls (Machine.run bucketStep ⟨1, 1, 10, 1, 0⟩ calls).1 : Int) >
        1 + 1 * ((10 - 9) / 10) :=
  ⟨new_eq (by decide), by decide, by decide, by decide⟩

end Runs

end TokenBucket

end Utils

end Userver
