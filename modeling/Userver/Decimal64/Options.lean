import Userver.Decimal64.Format
import Userver.Lib.Codec

/-!
# Formatting decimals with `FormatOptions`

`ToString(dec, format_options)` (`decimal64.hpp`) picks the number of fractional digits, splits
the value with `AsUnpacked` and hands the two parts to `impl::ToString` (`decimal64.cpp`).  That
prints a sign, the integral part cut into groups by the `numpunct`-style `grouping` (each
character the size of a group, the last one repeated) with `thousands_sep` between them, and the
fractional part after `decimal_point`.

The groups are written first, least significant first, into two arrays of `kMaxDecimalDigits`
entries on the stack, `groups_value` and `groups_size`.  An access outside them is undefined
behaviour; the model makes it an outcome of its own, `ToStringError.groupsOutOfRange`.

* `writeGroup_length`: every group written takes an entry, which bounds the `while` loop of the
  last group.
* `toStringWithOptions_grouping_one`: with the grouping `"\1"`, the integral part of a
  `Decimal<0>` with nineteen digits needs nineteen groups, and the nineteenth is written past
  the arrays.
* `toStringWithOptions_kMinInt64`: with the default grouping, `impl::ToString` takes `Abs` of
  the integral part, which throws for `Decimal<0>` at `INT64_MIN`, where `fmt` prints the value.
-/

namespace Userver

namespace Decimal64

/-- `FormatOptions`, with the defaults of its fields.  A `char` of `grouping` is signed. -/
structure FormatOptions where
  decimalPoint : List Char := ['.']
  thousandsSep : List Char := []
  grouping : List Int8 := []
  negativeSign : List Char := ['-']
  positiveSign : List Char := []
  precision : Option Int := none
  isFixed : Bool := false
  deriving DecidableEq, Repr

/-- How `ToString(dec, format_options)` goes wrong: an exception of the library
(`OutOfBoundsError` from `Abs`, and what `AsUnpacked` throws), or an access outside
`groups_value` and `groups_size`. -/
inductive ToStringError where
  | decimal (e : DecimalError)
  | groupsOutOfRange
  deriving DecidableEq, Repr

namespace Impl

/-- `groups_size[groups_count] = size; groups_value[groups_count++] = Abs(value);`, where
`groups` lists the entries written so far, least significant first. -/
def writeGroup (groups : List (Int × Nat)) (size : Nat) (value : Int) :
    Except ToStringError (List (Int × Nat)) :=
  if groups.length < kMaxDecimalDigits then do
    let value ← (abs value).mapError .decimal
    pure (groups ++ [(value, size)])
  else throw .groupsOutOfRange

/-- A group written takes one more entry of the arrays. -/
theorem writeGroup_length {groups groups' : List (Int × Nat)} {size : Nat} {value : Int}
    (h : writeGroup groups size value = .ok groups') :
    groups.length < kMaxDecimalDigits ∧ groups'.length = groups.length + 1 := by
  unfold writeGroup at h
  split at h
  · rename_i hlen
    cases habs : abs value with
    | error e => simp [habs, Except.mapError] at h
    | ok v =>
      simp only [habs, Except.mapError] at h
      cases h
      exact ⟨hlen, by simp⟩
  · cases h

/-- The `for (const char group : format_options.grouping)` loop: the groups written,
`last_group` and what is left of `before`. -/
def groupsFor : List Int8 → List (Int × Nat) → Int8 → Int →
    Except ToStringError (List (Int × Nat) × Int8 × Int)
  | [], groups, lastGroup, before => pure (groups, lastGroup, before)
  | group :: grouping, groups, _, before =>
    if before = 0 ∨ group.toInt ≤ 0 ∨ group.toInt > kMaxDecimalDigits then
      pure (groups, group, before)
    else do
      let groupFactor ← (pow10 group.toInt).mapError .decimal
      let groups ← writeGroup groups group.toUInt8.toNat (before.tmod groupFactor)
      groupsFor grouping groups group (before.tdiv groupFactor)

-- `h` is read by the termination proof only
set_option linter.unusedVariables false in
/-- The `while (before)` loop that repeats the last group.  Each turn takes an entry of the
arrays, so the loop stops, one way or the other, once they are full. -/
def groupsWhile (lastGroupFactor : Int) (lastGroup : Nat) (groups : List (Int × Nat))
    (before : Int) : Except ToStringError (List (Int × Nat) × Int) :=
  if before ≠ 0 then
    match h : writeGroup groups lastGroup (before.tmod lastGroupFactor) with
    | .ok groups' => groupsWhile lastGroupFactor lastGroup groups' (before.tdiv lastGroupFactor)
    | .error e => .error e
  else pure (groups, before)
termination_by kMaxDecimalDigits - groups.length
decreasing_by
  have := writeGroup_length h
  omega

/-- `impl::ToString(before, after, precision, format_options)`. -/
def toString (before after precision : Int) (o : FormatOptions) :
    Except ToStringError (List Char) := do
  let (after, precision) :=
    if !o.isFixed then trimTrailingZeros after precision else (after, precision)
  let sign := if after + before < 0 then o.negativeSign else o.positiveSign
  let (groups, lastGroup, before) ← groupsFor o.grouping [] 0 before
  let (groups, before) ←
    if 0 < lastGroup.toInt ∧ lastGroup.toInt ≤ kMaxDecimalDigits then do
      let lastGroupFactor ← (pow10 lastGroup.toInt).mapError .decimal
      groupsWhile lastGroupFactor lastGroup.toUInt8.toNat groups before
    else pure (groups, before)
  let groups ← if before ≠ 0 ∨ groups = [] then writeGroup groups 0 before else pure groups
  -- `groups_value[--groups_count]` first, then the others down to the least significant
  match groups.reverse with
  | [] => throw .groupsOutOfRange
  | (value, _) :: rest =>
    let integral := fmtInt value ++ rest.flatMap fun group => o.thousandsSep ++ fmtPadded group.1 group.2
    let fraction ←
      if after ≠ 0 ∨ (o.isFixed ∧ precision ≠ 0) then do
        let after ← (abs after).mapError .decimal
        pure (o.decimalPoint ++ fmtPadded after precision.toNat)
      else pure []
    pure (sign ++ integral ++ fraction)

end Impl

/-- `ToString(dec, format_options)`. -/
def toStringWithOptions {prec : Nat} {rp : RoundPolicy} (dec : Decimal prec rp)
    (o : FormatOptions) : Except ToStringError (List Char) := do
  let precision : Int := o.precision.getD prec
  let precision := if !o.isFixed then min precision prec else precision
  let (before, after) ← (asUnpackedPrec dec precision).mapError .decimal
  Impl.toString before after precision o

theorem toStringWithOptions_of_precision_none {prec : Nat} {rp : RoundPolicy}
    (dec : Decimal prec rp) {o : FormatOptions} (h : o.precision = none) :
    toStringWithOptions dec o = Impl.toString (asUnpacked dec).1 (asUnpacked dec).2 prec o := by
  simp [toStringWithOptions, h, asUnpackedPrec_self, Except.mapError]
  rfl

/-! ## Where the groups go past the arrays -/

/-- `Abs` of a value below `2^63` in size does not throw. -/
theorem abs_of_natAbs_lt {v : Int} (h : v.natAbs < 2 ^ 63) : abs v = .ok (v.natAbs : Int) := by
  unfold abs kMinInt64
  rw [if_neg (by omega)]
  congr 1
  split <;> omega

namespace Impl

theorem writeGroup_of_lt {groups : List (Int × Nat)} {size : Nat} {value : Int}
    (hlen : groups.length < kMaxDecimalDigits) (hvalue : value.natAbs < 2 ^ 63) :
    writeGroup groups size value = pure (groups ++ [((value.natAbs : Int), size)]) := by
  rw [writeGroup, if_pos hlen, abs_of_natAbs_lt hvalue]
  rfl

theorem writeGroup_of_full {groups : List (Int × Nat)} {size : Nat} {value : Int}
    (hlen : kMaxDecimalDigits ≤ groups.length) : writeGroup groups size value = throw .groupsOutOfRange := by
  rw [writeGroup, if_neg (by omega)]

/-- A remainder of a division by ten is one digit. -/
theorem natAbs_tmod_ten_lt (before : Int) : (before.tmod 10).natAbs < 2 ^ 63 := by
  rw [Int.natAbs_tmod]
  show before.natAbs % 10 < 2 ^ 63
  omega

/-- With groups of one digit, the `while` loop takes an entry for every digit of `before`: with
more digits than entries left, it writes past the arrays. -/
theorem groupsWhile_one_overflows (k : Nat) : ∀ (groups : List (Int × Nat)) (before : Int),
    groups.length + k = kMaxDecimalDigits → 10 ^ k ≤ before.natAbs →
      groupsWhile 10 1 groups before = throw .groupsOutOfRange := by
  -- induction on the entries left; each turn takes one and a digit of `before`
  induction k with
  | zero =>
    intro groups before hlen hbefore
    have hne : before ≠ 0 := by omega
    rw [groupsWhile, if_pos hne, writeGroup_of_full (by omega)]
    rfl
  | succ k ih =>
    intro groups before hlen hbefore
    have hne : before ≠ 0 := by
      have : 0 < 10 ^ (k + 1) := by positivity
      omega
    have hdigits : 10 ^ k ≤ (before.tdiv 10).natAbs := by
      rw [Int.natAbs_tdiv]
      show 10 ^ k ≤ before.natAbs / 10
      rw [Nat.le_div_iff_mul_le (by decide)]
      simpa [Nat.pow_succ] using hbefore
    rw [groupsWhile, if_pos hne]
    split
    · rename_i groups' h
      rw [writeGroup_of_lt (by omega) (natAbs_tmod_ten_lt before)] at h
      cases h
      exact ih _ _ (by simp; omega) hdigits
    · rename_i e h
      rw [writeGroup_of_lt (by omega) (natAbs_tmod_ten_lt before)] at h
      cases h

/-- The grouping `"\1"` takes the last digit of a non-zero `before` and leaves `1` as the last
group. -/
theorem groupsFor_one (lastGroup : Int8) {before : Int} (hne : before ≠ 0) :
    groupsFor [1] [] lastGroup before =
      pure ([(((before.tmod 10).natAbs : Int), 1)], 1, before.tdiv 10) := by
  have hfactor : pow10 (1 : Int8).toInt = .ok 10 := by decide
  simp only [groupsFor, hne, false_or]
  rw [if_neg (by decide), hfactor]
  simp only [Except.mapError, Codec.ok_bind]
  rw [writeGroup_of_lt (by decide) (natAbs_tmod_ten_lt before)]
  rfl

end Impl

theorem asUnpacked_prec_zero {rp : RoundPolicy} (dec : Decimal 0 rp) :
    asUnpacked dec = (dec.unbiased, 0) := by
  simp [asUnpacked]

/-- With the grouping `"\1"`, a `Decimal<0>` of nineteen digits needs nineteen groups: the
nineteenth is written past `groups_value` and `groups_size`. -/
theorem toStringWithOptions_grouping_one {rp : RoundPolicy} (dec : Decimal 0 rp)
    (hdigits : 10 ^ kMaxDecimalDigits ≤ dec.unbiased.natAbs) {o : FormatOptions}
    (hgrouping : o.grouping = [1]) (hprecision : o.precision = none) :
    toStringWithOptions dec o = .error .groupsOutOfRange := by
  have hne : dec.unbiased ≠ 0 := by
    have : 0 < 10 ^ kMaxDecimalDigits := by positivity
    omega
  -- the first group takes one digit, which leaves seventeen entries for eighteen digits
  have hwhile : Impl.groupsWhile 10 1 [(((dec.unbiased.tmod 10).natAbs : Int), 1)]
      (dec.unbiased.tdiv 10) = throw .groupsOutOfRange := by
    apply Impl.groupsWhile_one_overflows 17 _ _ rfl
    rw [Int.natAbs_tdiv]
    show 10 ^ 17 ≤ dec.unbiased.natAbs / 10
    rw [Nat.le_div_iff_mul_le (by decide)]
    simpa [kMaxDecimalDigits] using hdigits
  have hfactor : pow10 (1 : Int8).toInt = .ok 10 := by decide
  rw [toStringWithOptions_of_precision_none dec hprecision, asUnpacked_prec_zero, Impl.toString,
    hgrouping]
  simp only [Impl.groupsFor_one _ hne, pure_bind]
  rw [if_pos (by decide), hfactor]
  simp only [Except.mapError, Codec.ok_bind, show (1 : Int8).toUInt8.toNat = 1 from rfl, hwhile]
  rfl

theorem toStringWithOptions_grouping_one_at_ten_pow :
    toStringWithOptions (⟨10 ^ 18, by decide⟩ : Decimal 0 .defRound) { grouping := [1] } =
      .error .groupsOutOfRange :=
  toStringWithOptions_grouping_one _ (by decide) rfl rfl

/-- With the default grouping, `impl::ToString` takes `Abs` of the whole integral part, which
throws for a `Decimal<0>` at `INT64_MIN`; the `fmt` formatter prints that value. -/
theorem toStringWithOptions_kMinInt64 {rp : RoundPolicy} (dec : Decimal 0 rp)
    (hdec : dec.unbiased = kMinInt64) {o : FormatOptions} (hgrouping : o.grouping = [])
    (hprecision : o.precision = none) :
    toStringWithOptions dec o = .error (.decimal .outOfBounds) ∧
      toString dec = .ok (fmtInt kMinInt64) := by
  have habs : abs kMinInt64 = .error .outOfBounds := if_pos rfl
  constructor
  · -- no group is written before the last `if`, whose `Abs` throws
    rw [toStringWithOptions_of_precision_none dec hprecision, asUnpacked_prec_zero, hdec,
      Impl.toString, hgrouping]
    simp only [Impl.groupsFor, pure_bind]
    rw [if_neg (by decide), if_pos (by decide), Impl.writeGroup, if_pos (by decide), habs]
    rfl
  · -- `fmt` prints the integral part as it is
    have hunpacked : asUnpackedPrec dec 0 = pure (dec.unbiased, 0) := by
      simpa [asUnpacked_prec_zero] using asUnpackedPrec_self dec
    simp [toString, format, hunpacked, hdec, trimTrailingZeros]
    rfl

end Decimal64

end Userver
