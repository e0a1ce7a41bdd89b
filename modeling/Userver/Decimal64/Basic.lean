import Mathlib
import Userver.Lib.Rounding
import Userver.Lib.Codec

/-!
# Fixed-point decimals: values, powers of ten and rounding

`decimal64::Decimal<Prec, RoundPolicy>` (`universal/include/userver/decimal64/decimal64.hpp`)
stores `real_value * 10^Prec` in an `int64_t`.  This file models that representation and the
arithmetic helpers the parser and the formatter are built from:

* `Decimal prec rp` carries its `int64_t` range as a field, so an out-of-range value cannot be
  built; `Decimal.fromUnbiased` converts like the C++ conversion to `int64_t` does;
* `RoundPolicy` lists the eight policies of the header and `divRounded` is their
  `DivRounded`, the three half policies sharing `HalfRoundPolicyBase`;
* `div` is `impl::Div`; `fromUnpacked`, `fromUnpackedPrec` and `fromUnpackedWithExponent` are
  the three `impl::FromUnpacked*` builders and `asUnpacked` is `impl::AsUnpacked`.

C++ division and remainder truncate towards zero: they are `Int.tdiv` and `Int.tmod` here.
Operations the source guards with `__builtin_*_overflow`, `Abs` or `Pow10` fail with the
exception the source throws; unchecked `int64_t` arithmetic is exact.
-/

namespace Userver

namespace Decimal64

/-- `std::numeric_limits<int64_t>::max()`. -/
def kMaxInt64 : Int := 2 ^ 63 - 1

/-- `std::numeric_limits<int64_t>::min()`. -/
def kMinInt64 : Int := -2 ^ 63

/-- `kMaxDecimalDigits`: the largest `x` such that `10^x` fits in `int64_t`. -/
def kMaxDecimalDigits : Nat := 18

/-- `x` is a value of `int64_t`. -/
def InInt64 (x : Int) : Prop := kMinInt64 ≤ x ∧ x ≤ kMaxInt64

instance : DecidablePred InInt64 := fun x =>
  inferInstanceAs (Decidable (kMinInt64 ≤ x ∧ x ≤ kMaxInt64))

/-- The conversion of an integer to `int64_t`: two's complement, modulo `2^64`. -/
def wrapInt64 (x : Int) : Int := (x + 2 ^ 63) % 2 ^ 64 - 2 ^ 63

theorem wrapInt64_inInt64 (x : Int) : InInt64 (wrapInt64 x) := by
  unfold wrapInt64 InInt64 kMinInt64 kMaxInt64
  omega

theorem wrapInt64_of_inInt64 {x : Int} (h : InInt64 x) : wrapInt64 x = x := by
  unfold InInt64 kMinInt64 kMaxInt64 at h
  unfold wrapInt64
  omega

/-- The error codes of `ParseErrorCode`. -/
inductive ParseErrorCode where
  | wrongChar
  | noDigits
  | overflow
  | space
  | trailingJunk
  | boundaryDot
  | rounding
  | exponentNotAllowed
  | noExponentDigits
  deriving DecidableEq, Repr

/-- `ParseError` with its code and position, `OutOfBoundsError`, `DivisionByZeroError`, and the
`std::runtime_error` thrown by `Pow10`. -/
inductive DecimalError where
  | parse (code : ParseErrorCode) (position : Nat)
  | outOfBounds
  | divisionByZero
  | invalidPow10
  deriving DecidableEq, Repr

/-- The rounding policies: `DefRoundPolicy`, `HalfDownRoundPolicy`, `HalfUpRoundPolicy`,
`HalfEvenRoundPolicy`, `CeilingRoundPolicy`, `FloorRoundPolicy`, `RoundDownRoundPolicy` and
`RoundUpRoundPolicy`. -/
inductive RoundPolicy where
  | defRound
  | halfDown
  | halfUp
  | halfEven
  | ceiling
  | floor
  | roundDown
  | roundUp
  deriving DecidableEq, Repr

/-- The rounding each policy's documentation names: to the nearest value with ties away from
zero for `DefRoundPolicy` and `HalfUpRoundPolicy`, toward zero for `HalfDownRoundPolicy`, to the
even neighbour for `HalfEvenRoundPolicy`, and the four directed roundings. -/
def RoundPolicy.mode : RoundPolicy → Rounding.Mode
  | .defRound => .halfAwayFromZero
  | .halfDown => .halfTowardZero
  | .halfUp => .halfAwayFromZero
  | .halfEven => .halfEven
  | .ceiling => .ceiling
  | .floor => .floor
  | .roundDown => .towardZero
  | .roundUp => .awayFromZero

/-- A `Decimal<Prec, RoundPolicy>`: the unbiased `int64_t` value `real * 10^Prec`. -/
structure Decimal (prec : Nat) (rp : RoundPolicy) where
  /-- `AsUnbiased()`. -/
  unbiased : Int
  /-- The value is an `int64_t`. -/
  inInt64 : InInt64 unbiased
  deriving DecidableEq

/-- `Decimal::FromUnbiased` of an integer converted to `int64_t`. -/
def Decimal.fromUnbiased {prec : Nat} {rp : RoundPolicy} (x : Int) : Decimal prec rp :=
  ⟨wrapInt64 x, wrapInt64_inInt64 x⟩

@[simp] theorem Decimal.fromUnbiased_unbiased {prec : Nat} {rp : RoundPolicy} {x : Int}
    (h : InInt64 x) : (Decimal.fromUnbiased x : Decimal prec rp).unbiased = x :=
  wrapInt64_of_inInt64 h

@[simp] theorem Decimal.fromUnbiased_self {prec : Nat} {rp : RoundPolicy} (d : Decimal prec rp) :
    (Decimal.fromUnbiased d.unbiased : Decimal prec rp) = d := by
  obtain ⟨v, hv⟩ := d
  simp [Decimal.fromUnbiased, wrapInt64_of_inInt64 hv]

/-- `Decimal::Sign()`. -/
def Decimal.sign {prec : Nat} {rp : RoundPolicy} (d : Decimal prec rp) : Int := d.unbiased.sign

/-- `x` as an `int64_t`, or `OutOfBoundsError`: a `__builtin_*_overflow` check. -/
def checkedInt64 (x : Int) : Except DecimalError Int :=
  if InInt64 x then .ok x else .error .outOfBounds

theorem checkedInt64_of_inInt64 {x : Int} (h : InInt64 x) : checkedInt64 x = pure x :=
  if_pos h

/-- `Pow10(exp)`: `10^exp`, or `std::runtime_error` outside `0..kMaxDecimalDigits`. -/
def pow10 (exp : Int) : Except DecimalError Int :=
  if exp < 0 ∨ exp > kMaxDecimalDigits then .error .invalidPow10 else .ok (10 ^ exp.toNat)

/-- `impl::Abs`: throws on `kMinInt64`, whose negation is not an `int64_t`. -/
def abs (v : Int) : Except DecimalError Int :=
  if v = kMinInt64 then .error .outOfBounds else .ok (if v ≥ 0 then v else -v)

/-- The three `HalfPolicy` classes of `HalfRoundPolicyBase`. -/
inductive HalfPolicy where
  | halfUp
  | halfDown
  | halfEven
  deriving DecidableEq, Repr

/-- `HalfPolicy::ShouldRoundAwayFromZeroDiv(a, b, extra_odd_quotient)`: whether `a / b` is
rounded away from zero.  Only `HalfEvenPolicy` reads `extra_odd_quotient`, on an exact tie. -/
def HalfPolicy.shouldRoundAwayFromZeroDiv (p : HalfPolicy) (a b : Int) (extraOddQuotient : Bool) :
    Except DecimalError Bool := do
  let absA ← abs a
  let absB ← abs b
  let halfB := absB.tdiv 2
  let absRemainder := absA.tmod absB
  match p with
  | .halfUp => pure (if absB.tmod 2 = 0 then decide (absRemainder ≥ halfB)
      else decide (absRemainder > halfB))
  | .halfDown => pure (decide (absRemainder > halfB))
  | .halfEven => pure (if absB.tmod 2 = 0 ∧ absRemainder = halfB then
        (decide ((absA.tdiv absB).tmod 2 = 0) == extraOddQuotient)
      else decide (absRemainder > halfB))

/-- `HalfRoundPolicyBase<HalfPolicy>::DivRounded`. -/
def HalfPolicy.divRounded (p : HalfPolicy) (a b : Int) (extraOddQuotient : Bool) :
    Except DecimalError Int := do
  if ← p.shouldRoundAwayFromZeroDiv a b extraOddQuotient then
    pure (a.tdiv b + a.sign * b.sign)
  else
    pure (a.tdiv b)

/-- `RoundPolicy::DivRounded(a, b, extra_odd_quotient)` for every policy. -/
def RoundPolicy.divRounded : RoundPolicy → Int → Int → Bool → Except DecimalError Int
  | .defRound, a, b, _ => do
    let divisorCorr ← abs (b.tdiv 2)
    if a ≥ 0 then
      if kMaxInt64 - a < divisorCorr then .error .outOfBounds
      else pure ((a + divisorCorr).tdiv b)
    else
      if -(kMinInt64 - a) < divisorCorr then .error .outOfBounds
      else pure ((a - divisorCorr).tdiv b)
  | .halfDown, a, b, e => HalfPolicy.halfDown.divRounded a b e
  | .halfUp, a, b, e => HalfPolicy.halfUp.divRounded a b e
  | .halfEven, a, b, e => HalfPolicy.halfEven.divRounded a b e
  | .ceiling, a, b, _ =>
    pure (a.tdiv b + if a.tmod b ≠ 0 ∧ (decide (a ≥ 0) == decide (b ≥ 0)) then 1 else 0)
  | .floor, a, b, _ =>
    pure (a.tdiv b - if a.tmod b ≠ 0 ∧ (decide (a < 0) != decide (b < 0)) then 1 else 0)
  | .roundDown, a, b, _ => pure (a.tdiv b)
  | .roundUp, a, b, _ => pure (a.tdiv b + (if a.tmod b ≠ 0 then 1 else 0) * (a.sign * b.sign))

/-- `impl::Div<RoundPolicy>(nominator, denominator, extra_odd_quotient)`. -/
def div (rp : RoundPolicy) (nominator denominator : Int) (extraOddQuotient : Bool) :
    Except DecimalError Int :=
  if denominator = 0 then .error .divisionByZero
  else if denominator = -1 then
    if nominator = kMinInt64 then .error .outOfBounds else .ok (-nominator)
  else rp.divRounded nominator denominator extraOddQuotient

/-- `impl::FromUnpacked<Prec, RoundPolicy>(before, after)`: `before * 10^Prec + after`, both
steps overflow-checked. -/
def fromUnpacked (prec : Nat) (rp : RoundPolicy) (before after : Int) :
    Except DecimalError (Decimal prec rp) := do
  let result ← checkedInt64 (before * 10 ^ prec)
  let result ← checkedInt64 (result + after)
  pure (Decimal.fromUnbiased result)

theorem fromUnpacked_of_inInt64 {prec : Nat} {rp : RoundPolicy} {before after : Int}
    (h1 : InInt64 (before * 10 ^ prec)) (h2 : InInt64 (before * 10 ^ prec + after)) :
    fromUnpacked prec rp before after = pure (Decimal.fromUnbiased (before * 10 ^ prec + after)) := by
  simp only [fromUnpacked, checkedInt64_of_inInt64 h1, checkedInt64_of_inInt64 h2, pure_bind]

/-- `impl::FromUnpacked<Prec, RoundPolicy>(before, after, original_precision)`: `after` has
`original_precision` fractional digits; extra digits are rounded away with `div`. -/
def fromUnpackedPrec (prec : Nat) (rp : RoundPolicy) (before after originalPrecision : Int) :
    Except DecimalError (Decimal prec rp) :=
  if originalPrecision ≤ prec then do
    -- direct mode
    let factor ← pow10 (prec - originalPrecision)
    fromUnpacked prec rp before (after * factor)
  else do
    -- rounding mode
    let factor ← pow10 (originalPrecision - prec)
    let roundedAfter ← div rp after factor false
    fromUnpacked prec rp before roundedAfter

/-- In direct mode (`original_precision <= Prec`) the fractional part is only scaled up. -/
theorem fromUnpackedPrec_direct {prec : Nat} {rp : RoundPolicy} {before after : Int} {k : Nat}
    (hk : k ≤ prec) (hp : prec ≤ kMaxDecimalDigits) (h1 : InInt64 (before * 10 ^ prec))
    (h2 : InInt64 (before * 10 ^ prec + after * 10 ^ (prec - k))) :
    fromUnpackedPrec prec rp before after k =
      pure (Decimal.fromUnbiased (before * 10 ^ prec + after * 10 ^ (prec - k))) := by
  have hpow : pow10 ((prec : Int) - k) = .ok (10 ^ (prec - k)) := by
    unfold pow10 kMaxDecimalDigits at *
    rw [if_neg (by omega)]
    congr 2
    omega
  simp only [fromUnpackedPrec, if_pos (Int.ofNat_le.2 hk), hpow]
  exact fromUnpacked_of_inInt64 h1 h2

/-- `impl::FromUnpackedWithExponent<Prec, RoundPolicy>`: the value
`(before.after) * 10^(±exponent)` with `after` of `original_precision` digits, of which
`leading_zeros` are leading zeros. -/
def fromUnpackedWithExponent (prec : Nat) (rp : RoundPolicy) (before after originalPrecision
    exponent : Int) (isNegativeExponent : Bool) (leadingZeros : Int) :
    Except DecimalError (Decimal prec rp) := do
  if before = 0 ∧ after = 0 then return Decimal.fromUnbiased 0
  let effectiveExponent := if isNegativeExponent then -exponent else exponent
  if effectiveExponent + prec < -(kMaxDecimalDigits : Int) then return Decimal.fromUnbiased 0
  let totalScale := effectiveExponent + prec - originalPrecision
  -- only the adjusted precision is read afterwards
  let originalPrecision :=
    if before = 0 ∧ after ≠ 0 ∧ !isNegativeExponent then
      if exponent ≥ leadingZeros then originalPrecision - leadingZeros
      else originalPrecision - exponent
    else originalPrecision
  let value ← checkedInt64 (before * (← pow10 originalPrecision))
  let value ← checkedInt64 (value + after)
  if totalScale > 0 then
    if totalScale > kMaxDecimalDigits then throw .outOfBounds
    let value ← checkedInt64 (value * (← pow10 totalScale))
    return Decimal.fromUnbiased value
  else if totalScale < 0 then
    let divisor ← pow10 (-totalScale)
    let value ← div rp value divisor false
    return Decimal.fromUnbiased value
  else
    return Decimal.fromUnbiased value

/-- `Decimal::FromBiased(original_unbiased, original_precision)`: the value
`original_unbiased / 10^original_precision`, scaled up with an overflow-checked multiplication
or rounded down with the policy. -/
def Decimal.fromBiased (prec : Nat) (rp : RoundPolicy) (originalUnbiased originalPrecision : Int) :
    Except DecimalError (Decimal prec rp) := do
  let exponentForPack := (prec : Int) - originalPrecision
  if exponentForPack ≥ 0 then
    let result ← checkedInt64 (originalUnbiased * (← pow10 exponentForPack))
    pure (Decimal.fromUnbiased result)
  else
    pure (Decimal.fromUnbiased (← div rp originalUnbiased (← pow10 (-exponentForPack)) false))

/-- `impl::AsUnpacked(dec)`: the integral part and the fractional part, both with the sign of
the value. -/
def asUnpacked {prec : Nat} {rp : RoundPolicy} (dec : Decimal prec rp) : Int × Int :=
  (dec.unbiased.tdiv (10 ^ prec), dec.unbiased.tmod (10 ^ prec))

theorem asUnpacked_recombine {prec : Nat} {rp : RoundPolicy} (dec : Decimal prec rp) :
    (asUnpacked dec).1 * 10 ^ prec + (asUnpacked dec).2 = dec.unbiased := by
  simp only [asUnpacked, Int.tmod_def]
  ring

theorem asUnpacked_snd_natAbs_lt {prec : Nat} {rp : RoundPolicy} (dec : Decimal prec rp) :
    (asUnpacked dec).2.natAbs < 10 ^ prec := by
  simp only [asUnpacked, Int.natAbs_tmod, Int.natAbs_pow]
  exact Nat.mod_lt _ (by positivity)

/-- Both parts of a non-negative value are non-negative. -/
theorem asUnpacked_nonneg {prec : Nat} {rp : RoundPolicy} {dec : Decimal prec rp}
    (h : 0 ≤ dec.unbiased) : 0 ≤ (asUnpacked dec).1 ∧ 0 ≤ (asUnpacked dec).2 :=
  ⟨Int.tdiv_nonneg h (by positivity), Int.tmod_nonneg _ h⟩

/-- Both parts of a negative value are non-positive: C++ division truncates. -/
theorem asUnpacked_nonpos {prec : Nat} {rp : RoundPolicy} {dec : Decimal prec rp}
    (h : dec.unbiased < 0) : (asUnpacked dec).1 ≤ 0 ∧ (asUnpacked dec).2 ≤ 0 := by
  obtain ⟨w, hw⟩ : ∃ w, dec.unbiased = -w := ⟨-dec.unbiased, by ring⟩
  have hw0 : 0 ≤ w := by omega
  simp only [asUnpacked, hw, Int.neg_tdiv, Int.neg_tmod]
  exact ⟨Int.neg_nonpos_of_nonneg (Int.tdiv_nonneg hw0 (by positivity)),
    Int.neg_nonpos_of_nonneg (Int.tmod_nonneg _ hw0)⟩

/-- `impl::AsUnpacked(dec, new_prec)`: the parts of `dec` rescaled to `new_prec` fractional
digits, rounding with the policy when digits are dropped. -/
def asUnpackedPrec {prec : Nat} {rp : RoundPolicy} (dec : Decimal prec rp) (newPrec : Int) :
    Except DecimalError (Int × Int) := do
  if newPrec = prec then return asUnpacked dec
  let result ←
    if newPrec > prec then checkedInt64 (dec.unbiased * (← pow10 (newPrec - prec)))
    else div rp dec.unbiased (← pow10 (prec - newPrec)) false
  let decFactor ← pow10 newPrec
  return (result.tdiv decFactor, result.tmod decFactor)

theorem asUnpackedPrec_self {prec : Nat} {rp : RoundPolicy} (dec : Decimal prec rp) :
    asUnpackedPrec dec prec = pure (asUnpacked dec) := by
  simp [asUnpackedPrec]

/-! ### Where `Div` throws -/

/-- `Abs` of a non-negative value is the value. -/
theorem abs_of_nonneg {v : Int} (h : 0 ≤ v) : abs v = .ok v := by
  unfold abs kMinInt64
  rw [if_neg (by omega), if_pos h]

/-- `DefRoundPolicy::DivRounded` adds `|b / 2|` to `a` before it divides, and throws when that sum
would pass `kMaxInt64`: for every divisor `b ≥ 2` and every `a ≥ 0` within `b / 2` of
`kMaxInt64`, `Div` throws, although the quotient rounded half away from zero, at most
`kMaxInt64 / 2 + 1/2`, is an `int64_t`. -/
theorem div_defRound_throws_near_max (a b : Int) (hb : 2 ≤ b) (ha : 0 ≤ a)
    (ha' : a ≤ kMaxInt64) (hnear : kMaxInt64 - a < b.tdiv 2) :
    div .defRound a b false = .error .outOfBounds ∧
      InInt64 (RoundPolicy.defRound.mode.round ((a : ℚ) / b)) := by
  have hcorr : 0 ≤ b.tdiv 2 := Int.tdiv_nonneg (by omega) (by decide)
  constructor
  · rw [div, if_neg (by omega), if_neg (by omega)]
    simp only [RoundPolicy.divRounded, abs_of_nonneg hcorr, Codec.ok_bind, if_pos ha,
      if_pos hnear]
  · -- the quotient is between `0` and `a / 2`
    have hq : (0 : ℚ) ≤ a / b := div_nonneg (by exact_mod_cast ha) (by positivity)
    have hhalf : (a : ℚ) / b ≤ a / 2 :=
      div_le_div_of_nonneg_left (by exact_mod_cast ha) two_pos (by exact_mod_cast hb)
    have hmax : (a : ℚ) ≤ 2 ^ 63 - 1 := by
      have : a ≤ 2 ^ 63 - 1 := ha'
      exact_mod_cast this
    simp only [RoundPolicy.mode, Rounding.Mode.round, if_pos hq]
    constructor
    · exact le_trans (by decide) (Int.floor_nonneg.mpr (by positivity))
    · unfold kMaxInt64
      rw [Int.floor_le_iff]
      push_cast
      linarith

theorem div_defRound_throws_at_max :
    div .defRound kMaxInt64 2 false = .error .outOfBounds ∧
      InInt64 (RoundPolicy.defRound.mode.round ((kMaxInt64 : ℚ) / ((2 : Int) : ℚ))) :=
  div_defRound_throws_near_max kMaxInt64 2 le_rfl (by decide) le_rfl (by decide)

end Decimal64

end Userver
