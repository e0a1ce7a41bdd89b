import Userver.Decimal64.Basic

/-!
# PostgreSQL `numeric` binary buffers of `int64` values

`storages/postgres/io/numeric_data.cpp` sends a `decimal64::Decimal<Prec>` to PostgreSQL as a
`numeric` binary buffer and reads it back.  `NumericData` is the buffer's header and its base
`10000` digits; `NumericData.fromInt64` and `NumericData.toInt64` are `FromInt64` and `ToInt64`,
with `Log10`, `IntegralToBinary` and the trimming loops as separate definitions.

The header `ndigits`, `weight`, `sign`, `dscale` and the digits are written and read as 16-bit
big-endian words; `NumericData.Valid` is what `ReadBuffer` checks of them.

Signed `int64_t` overflow is undefined behaviour in C++.  The model makes it an outcome of its
own, `NumericError.signedOverflow`, wherever the source multiplies or negates without a check.
-/

namespace Userver

namespace Postgres

open Decimal64 (InInt64 kMinInt64 kMaxInt64 DecimalError RoundPolicy Decimal)

/-- The values of `ValidSigns`: `kNumericPositive`, `kNumericNegative` and `kNumericNan`. -/
inductive NumericSign where
  | positive
  | negative
  | nan
  deriving DecidableEq, Repr

/-- `kBinEncodingBase`. -/
def kBinEncodingBase : Int := 10000

/-- `kMaxPowerOfTen`: the last index of `kPowersOfTen`, whose entries are `10^i`. -/
def kMaxPowerOfTen : Nat := 18

/-- `kDigitWidth`: decimal digits per binary digit. -/
def kDigitWidth : Nat := 4

/-- `kDscaleMask`. -/
def kDscaleMask : Nat := 0x3fff

/-- `IntegralRepresentation`: `value / 10^fractional_digit_count`. -/
structure IntegralRepresentation where
  value : Int
  fractionalDigitCount : Int
  deriving DecidableEq, Repr

/-- The exceptions of this file (`InvalidRepresentation`, `InvalidBinaryBuffer`, `ValueIsNaN`,
`NumericOverflow`), signed overflow, and an exception of `decimal64`. -/
inductive NumericError where
  | invalidRepresentation
  | invalidBinaryBuffer
  | valueIsNaN
  | numericOverflow
  | signedOverflow
  | decimal (e : DecimalError)
  deriving DecidableEq, Repr

/-- `NumericData`: the fields of a `numeric` binary buffer. -/
structure NumericData where
  ndigits : Nat
  weight : Int
  sign : NumericSign
  dscale : Nat
  digits : List Int
  deriving DecidableEq, Repr

/-- A default-constructed `NumericData`: zero. -/
def NumericData.zero : NumericData := ⟨0, 0, .positive, 0, []⟩

/-- The checks of `ReadBuffer`: a known sign, `dscale` within `kDscaleMask`, and `ndigits`
digits in `[0, kBinEncodingBase)`. -/
structure NumericData.Valid (n : NumericData) : Prop where
  dscale_le : n.dscale ≤ kDscaleMask
  ndigits_eq : n.ndigits = n.digits.length
  digits_range : ∀ d ∈ n.digits, 0 ≤ d ∧ d < kBinEncodingBase

instance (n : NumericData) : Decidable n.Valid :=
  decidable_of_iff (n.dscale ≤ kDscaleMask ∧ n.ndigits = n.digits.length ∧
      ∀ d ∈ n.digits, 0 ≤ d ∧ d < kBinEncodingBase)
    ⟨fun ⟨h1, h2, h3⟩ => ⟨h1, h2, h3⟩, fun ⟨h1, h2, h3⟩ => ⟨h1, h2, h3⟩⟩

/-- An `int64_t` product, or signed overflow. -/
def mulInt64 (a b : Int) : Except NumericError Int :=
  if InInt64 (a * b) then pure (a * b) else throw .signedOverflow

/-- `Log10(number)`: the first `p < kMaxPowerOfTen` with `number < 10^p`, else
`kMaxPowerOfTen`. -/
def log10 (number : Int) : Nat :=
  ((List.range kMaxPowerOfTen).find? fun p => decide (number < 10 ^ p)).getD kMaxPowerOfTen

/-- The loop of `IntegralToBinary` over `groups` binary digits, most significant first. -/
def integralToBinaryLoop (integralPart : Int) : Nat → List Int
  | 0 => []
  | groups + 1 =>
    integralPart.tdiv (10 ^ (kDigitWidth * groups)) ::
      integralToBinaryLoop (integralPart.tmod (10 ^ (kDigitWidth * groups))) groups

/-- `IntegralToBinary(integral_part, digits, target)`: the binary digits of `integral_part`,
left-padded to a multiple of `kDigitWidth` decimal digits. -/
def integralToBinary (integralPart : Int) (digits : Nat) : List Int :=
  let digits := if digits % kDigitWidth ≠ 0 then digits + (kDigitWidth - digits % kDigitWidth)
    else digits
  integralToBinaryLoop integralPart (digits / kDigitWidth)

/-- The loop of `FromInt64` that removes trailing decimal zeros of the fractional part while the
digit count is not a multiple of `kDigitWidth`. -/
def trimFraction (fractionalPart : Int) : Nat → Int × Nat
  | 0 => (fractionalPart, 0)
  | k + 1 =>
    if fractionalPart ≠ 0 ∧ fractionalPart.tmod 10 = 0 ∧ (k + 1) % kDigitWidth ≠ 0 then
      trimFraction (fractionalPart.tdiv 10) k
    else (fractionalPart, k + 1)

/-- `boost::trim_if(digits, c == 0)`: drop zero digits at both ends. -/
def trimZeros (digits : List Int) : List Int :=
  ((digits.dropWhile (· == 0)).reverse.dropWhile (· == 0)).reverse

/-- `weight` from the decimal weight: `floor(dec_weight / kDigitWidth)`, written with C++
division on non-negative operands. -/
def binWeight (decWeight : Int) : Int :=
  if decWeight ≥ 0 then decWeight.tdiv kDigitWidth
  else -((-decWeight - 1).tdiv kDigitWidth + 1)

/-- `NumericData::FromInt64(rep)` on a default-constructed `NumericData`. -/
def NumericData.fromInt64 (rep : IntegralRepresentation) : Except NumericError NumericData := do
  if rep.fractionalDigitCount < 0 ∨ (kMaxPowerOfTen : Int) < rep.fractionalDigitCount then
    throw .invalidRepresentation
  if rep.value = 0 then return NumericData.zero
  let sign := if rep.value < 0 then NumericSign.negative else .positive
  -- std::abs(INT64_MIN) is not an int64_t
  if rep.value = kMinInt64 then throw .signedOverflow
  let p := rep.fractionalDigitCount.toNat
  let absValue : Int := rep.value.natAbs
  let integralPart := absValue.tdiv (10 ^ p)
  let integralDigits := log10 integralPart
  let (fractionalPart, fractionalDigits) := trimFraction (absValue.tmod (10 ^ p)) p
  let dscale := fractionalDigits
  -- right pad the fractional part to a multiple of kDigitWidth digits, in int64_t
  let (fractionalPart, fractionalDigits) ← if fractionalDigits % kDigitWidth ≠ 0 then do
      let rightPad := kDigitWidth - fractionalDigits % kDigitWidth
      pure (← mulInt64 fractionalPart (10 ^ rightPad), fractionalDigits + rightPad)
    else pure (fractionalPart, fractionalDigits)
  let decWeight : Int := if integralPart = 0 then
      (log10 fractionalPart : Int) - fractionalDigits - 1
    else (integralDigits : Int) - 1
  let weight := binWeight decWeight
  let digits := trimZeros ((if weight ≥ 0 then integralToBinary integralPart integralDigits
    else []) ++ integralToBinary fractionalPart fractionalDigits)
  return ⟨digits.length, weight, sign, dscale, digits⟩

/-- `Int64ToNumericBuffer(rep)`: the buffer's fields. -/
def int64ToNumericBuffer (rep : IntegralRepresentation) : Except NumericError NumericData :=
  NumericData.fromInt64 rep

/-- A `Decimal<17>` with seventeen significant fractional digits: right-padding them to twenty
digits multiplies by `10^3` past `int64_t`. -/
theorem int64ToNumericBuffer_seventeen_digit_fraction :
    int64ToNumericBuffer ⟨12345678901234567, 17⟩ = .error .signedOverflow := by
  decide

/-- The digit at binary position `pos`, zero outside `0..ndigits-1`. -/
def NumericData.digitAt (n : NumericData) (pos : Int) : Int :=
  if 0 ≤ pos ∧ pos < n.ndigits then n.digits.getD pos.toNat 0 else 0

/-- One accumulation step of `ToInt64`: `new_val = rep.value * power + dig` in `int64_t`,
converted to `uint64_t` and checked against `rep.value` and `int64_t` max. -/
def accumulate (value power dig : Int) : Except NumericError Int := do
  let product ← mulInt64 value power
  if ¬InInt64 (product + dig) then throw .signedOverflow
  let newVal := (product + dig) % 2 ^ 64
  if value > Decimal64.wrapInt64 newVal ∨ newVal > kMaxInt64 then throw .numericOverflow
  pure newVal

/-- The loop of `ToInt64` over the binary digits before the point, at positions
`pos, pos+1, ...`: `count` of them. -/
def NumericData.integralLoop (n : NumericData) (value : Int) (pos : Int) :
    Nat → Except NumericError Int
  | 0 => pure value
  | count + 1 => do
    let value ← accumulate value kBinEncodingBase (n.digitAt pos)
    n.integralLoop value (pos + 1) count

/-- The loop of `ToInt64` over the binary digits after the point: `decimalPos` counts the
decimal digits read, and the last group is truncated to `dscale` digits. -/
def NumericData.fractionLoop (n : NumericData) (value : Int) (pos : Int) (decimalPos : Nat) :
    Nat → Except NumericError Int
  | 0 => pure value
  | count + 1 => do
    let truncateCount : Int := kDigitWidth + decimalPos - n.dscale
    let (power, dig) := if truncateCount > 0 then
        (kBinEncodingBase.tdiv (10 ^ truncateCount.toNat),
          (n.digitAt pos).tdiv (10 ^ truncateCount.toNat))
      else (kBinEncodingBase, n.digitAt pos)
    let value ← accumulate value power dig
    n.fractionLoop value (pos + 1) (decimalPos + kDigitWidth) count

/-- The number of iterations of `for (decimal_pos = 0; decimal_pos < dscale; decimal_pos += 4)`. -/
def fractionGroups (dscale : Nat) : Nat := (dscale + kDigitWidth - 1) / kDigitWidth

/-- `NumericData::ToInt64()`. -/
def NumericData.toInt64 (n : NumericData) : Except NumericError IntegralRepresentation := do
  if n.sign = .nan then throw .valueIsNaN
  let (value, pos) ← if n.weight < 0 then pure (0, n.weight + 1)
    else do pure (← n.integralLoop 0 0 (n.weight + 1).toNat, n.weight + 1)
  let value ← if n.dscale > 0 then n.fractionLoop value pos 0 (fractionGroups n.dscale)
    else pure value
  -- rep.value *= -1 on a non-negative int64_t cannot overflow
  let value := if n.sign = .negative then -value else value
  pure ⟨value, n.dscale⟩

/-- `NumericBufferToInt64(buffer)`: `ReadBuffer` then `ToInt64`. -/
def numericBufferToInt64 (n : NumericData) : Except NumericError IntegralRepresentation :=
  if n.Valid then n.toInt64 else throw .invalidBinaryBuffer

/-! ### The overflow check of `ToInt64`

Every turn of both loops computes `rep.value * power + dig` in `int64_t` and checks the result
afterwards.  With a non-negative accumulator, a positive power and a non-negative digit, a sum
that did not overflow is at least the accumulator and at most `int64_t` max, so the check never
fires: a value out of range is a signed overflow before it is a `NumericOverflow`. -/

/-- What a run of the loops can give: a non-negative value, or signed overflow. -/
def OkOrSignedOverflow (r : Except NumericError Int) : Prop :=
  (∃ v, 0 ≤ v ∧ r = .ok v) ∨ r = .error .signedOverflow

theorem OkOrSignedOverflow.bind {r : Except NumericError Int}
    {f : Int → Except NumericError Int} (hr : OkOrSignedOverflow r)
    (hf : ∀ v, 0 ≤ v → OkOrSignedOverflow (f v)) : OkOrSignedOverflow (r >>= f) := by
  rcases hr with ⟨v, hv, rfl⟩ | rfl
  · exact hf v hv
  · exact .inr rfl

/-- One accumulation step from a non-negative accumulator is the exact sum, or signed
overflow. -/
theorem accumulate_eq {value power dig : Int} (hv : 0 ≤ value) (hp : 1 ≤ power)
    (hd : 0 ≤ dig) :
    accumulate value power dig =
      if InInt64 (value * power + dig) then .ok (value * power + dig)
      else .error .signedOverflow := by
  have hle : value ≤ value * power := le_mul_of_one_le_right hv hp
  unfold accumulate mulInt64
  by_cases hsum : InInt64 (value * power + dig)
  · have hprod : InInt64 (value * power) := by
      unfold InInt64 kMinInt64 kMaxInt64 at hsum ⊢
      omega
    have hmod : (value * power + dig) % 2 ^ 64 = value * power + dig := by
      unfold InInt64 kMinInt64 kMaxInt64 at hsum
      omega
    -- the check compares the exact sum, which lies between the accumulator and the max
    have hcheck : ¬(value > Decimal64.wrapInt64 (value * power + dig) ∨
        value * power + dig > kMaxInt64) := by
      rw [Decimal64.wrapInt64_of_inInt64 hsum]
      simp only [InInt64, kMinInt64, kMaxInt64] at hsum ⊢
      omega
    simp only [hprod, hsum, not_true_eq_false, if_true, if_false, pure_bind, hmod, hcheck]
    rfl
  · by_cases hprod : InInt64 (value * power)
    · simp only [hprod, hsum, not_false_eq_true, if_true, pure_bind]
      rfl
    · simp only [hprod, hsum, if_false]
      rfl

theorem accumulate_okOrSignedOverflow {value power dig : Int} (hv : 0 ≤ value)
    (hp : 1 ≤ power) (hd : 0 ≤ dig) : OkOrSignedOverflow (accumulate value power dig) := by
  rw [accumulate_eq hv hp hd]
  split
  · have hprod : 0 ≤ value * power := Int.mul_nonneg hv (by omega)
    exact .inl ⟨_, by omega, rfl⟩
  · exact .inr rfl

theorem NumericData.digitAt_nonneg {n : NumericData} (hdig : ∀ d ∈ n.digits, 0 ≤ d)
    (pos : Int) : 0 ≤ n.digitAt pos := by
  unfold digitAt
  split
  · rename_i hpos
    rw [List.getD_eq_getElem?_getD]
    cases hget : n.digits[pos.toNat]? with
    | none => simp
    | some d => exact hdig d (List.mem_of_getElem? hget)
  · exact le_refl 0

theorem NumericData.integralLoop_okOrSignedOverflow {n : NumericData}
    (hdig : ∀ d ∈ n.digits, 0 ≤ d) :
    ∀ (count : Nat) (value pos : Int), 0 ≤ value →
      OkOrSignedOverflow (n.integralLoop value pos count)
  | 0, value, _, hv => .inl ⟨value, hv, rfl⟩
  | count + 1, value, pos, hv =>
    (accumulate_okOrSignedOverflow hv (by decide) (n.digitAt_nonneg hdig pos)).bind
      fun v hv' => integralLoop_okOrSignedOverflow hdig count v (pos + 1) hv'

/-- The power and the digit of a turn of the fraction loop whose decimal position is below
`dscale`: the power is at least `1`, the digit non-negative. -/
theorem fraction_power_digit {dig truncateCount : Int} (hdig : 0 ≤ dig)
    (htc : truncateCount < kDigitWidth) :
    1 ≤ (if truncateCount > 0 then
        (kBinEncodingBase.tdiv (10 ^ truncateCount.toNat),
          dig.tdiv (10 ^ truncateCount.toNat))
      else (kBinEncodingBase, dig)).1 ∧
    0 ≤ (if truncateCount > 0 then
        (kBinEncodingBase.tdiv (10 ^ truncateCount.toNat),
          dig.tdiv (10 ^ truncateCount.toNat))
      else (kBinEncodingBase, dig)).2 := by
  split
  · rename_i hpos
    -- a truncation drops one to three decimal digits
    have hcases : truncateCount.toNat = 1 ∨ truncateCount.toNat = 2 ∨
        truncateCount.toNat = 3 := by
      unfold kDigitWidth at htc
      omega
    refine ⟨?_, Int.tdiv_nonneg hdig (by positivity)⟩
    dsimp only
    rcases hcases with h | h | h <;> rw [h] <;> decide
  · exact ⟨by dsimp only; decide, hdig⟩

theorem NumericData.fractionLoop_okOrSignedOverflow {n : NumericData}
    (hdig : ∀ d ∈ n.digits, 0 ≤ d) :
    ∀ (count : Nat) (value pos : Int) (decimalPos : Nat), 0 ≤ value →
      decimalPos + kDigitWidth * count < n.dscale + kDigitWidth →
        OkOrSignedOverflow (n.fractionLoop value pos decimalPos count)
  | 0, value, _, _, hv, _ => .inl ⟨value, hv, rfl⟩
  | count + 1, value, pos, decimalPos, hv, hturns => by
    have htc : ((kDigitWidth + decimalPos : Nat) : Int) - n.dscale < kDigitWidth := by
      unfold kDigitWidth at hturns ⊢
      omega
    obtain ⟨hp, hd⟩ := fraction_power_digit (n.digitAt_nonneg hdig pos) htc
    simp only [fractionLoop]
    exact (accumulate_okOrSignedOverflow hv hp hd).bind fun v hv' =>
      fractionLoop_okOrSignedOverflow hdig count v (pos + 1) (decimalPos + kDigitWidth) hv'
        (by unfold kDigitWidth at hturns ⊢; omega)

/-- The integral part `2 * 10^19`, in five base-10000 groups: the product of the last turn
overflows `int64_t` before the check that would throw `NumericOverflow`, and wrapped around it is
`1553255926290448384`, above the accumulator and below the max, which the check lets through.
`-2^63`, in range, overflows in the sum of its last turn. -/
theorem numericBufferToInt64_overflow_before_check :
    numericBufferToInt64 ⟨5, 4, .positive, 0, [2000, 0, 0, 0, 0]⟩ = .error .signedOverflow ∧
      Decimal64.wrapInt64 (2 * 10 ^ 15 * kBinEncodingBase) = 1553255926290448384 ∧
      numericBufferToInt64 ⟨5, 4, .negative, 0, [922, 3372, 368, 5477, 5808]⟩ =
        .error .signedOverflow := by
  refine ⟨by decide, by decide, by decide⟩

/-- `BufferFormatter<Decimal<Prec, RoundPolicy>>`: the value's unbiased `int64_t` and
`Prec`. -/
def formatDecimal {prec : Nat} {rp : RoundPolicy} (d : Decimal prec rp) :
    Except NumericError NumericData :=
  int64ToNumericBuffer ⟨d.unbiased, prec⟩

/-- `BufferParser<Decimal<Prec, RoundPolicy>>`: `FromBiased` of the buffer's
`IntegralRepresentation`. -/
def parseDecimal (prec : Nat) (rp : RoundPolicy) (n : NumericData) :
    Except NumericError (Decimal prec rp) := do
  let rep ← numericBufferToInt64 n
  match Decimal.fromBiased prec rp rep.value rep.fractionalDigitCount with
  | .ok d => pure d
  | .error e => throw (.decimal e)

end Postgres

end Userver
