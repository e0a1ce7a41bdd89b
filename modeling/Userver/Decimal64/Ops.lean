import Mathlib
import Userver.Decimal64.Arith

/-!
# Fixed-point decimals: the operators

The operators of `Decimal<Prec, RoundPolicy>` (`universal/include/userver/decimal64/decimal64.hpp`)
on the model's `Decimal`, each with the exception it throws.  `Decimal.toRat` is the number a
value stands for, `AsUnbiased() / 10^Prec`, and each operator is stated against exact rational
arithmetic on it:

* `fromDecimal` (and `decimal_cast`, which is it) is exact when it raises the precision and
  throws exactly when the scaled value leaves `int64_t` (`fromDecimal_up_eq_ok_iff`); lowering
  the precision rounds the value with the target's policy (`fromDecimal_down_eq_round`), and
  lowering after raising gives the value back (`fromDecimal_fromDecimal`);
* `add` and `sub` raise the operand of lower precision, are exact, and throw exactly when a
  raised operand or the result leaves `int64_t` (`add_eq_ok_iff`, `sub_eq_ok_iff`);
* `mul` and `divide` round the exact product and quotient to the left operand's precision with
  its policy, throwing exactly on `MulDiv`'s guard (`mul_eq_ok_iff`, `divide_eq_ok_iff`);
* `divInt`, `roundToMultipleOf` and `toInteger` round with `Div`
  (`divInt_eq_round`, `roundToMultipleOf_eq`, `toInteger_eq_round`).

Every rounding here goes through `Div`, so it inherits `DefRoundPolicy`'s guard: the hypotheses
that `|a| + |b| / 2` fit in `int64_t` are the ones `Div` needs.
-/

namespace Userver

namespace Decimal64

open Rounding

/-- What `Div` returns from an `int64_t` is an `int64_t`: the quotient shrinks, and the
rounding moves it by at most one. -/
theorem div_inInt64 {rp : RoundPolicy} {a b x : Int} (ha : InInt64 a)
    (h : div rp a b false = .ok x) : InInt64 x := by
  have hx := div_eq_round_of_ok h
  have hb0 : b ≠ 0 := by
    rintro rfl
    cases h
  by_cases hm1 : b = -1
  · -- `Div` negates, and refuses `INT64_MIN`
    subst hm1
    unfold div at h
    rw [if_neg (by decide), if_pos rfl] at h
    by_cases hmin : a = kMinInt64
    · rw [if_pos hmin] at h
      cases h
    · rw [if_neg hmin] at h
      cases h
      unfold InInt64 kMinInt64 kMaxInt64 at *
      omega
  by_cases h1 : b = 1
  · subst h1
    rw [Int.cast_one, div_one, Rounding.round_intCast] at hx
    rw [hx]
    exact ha
  · have hstep := abs_round_div_sub_tdiv_le_one (α := ℚ) (a := a) hb0 rp.mode
    rw [← hx, abs_le] at hstep
    have hhalf : (a.tdiv b).natAbs ≤ a.natAbs / 2 := by
      rw [Int.natAbs_tdiv]
      exact Nat.div_le_div_left (by omega) (by norm_num)
    unfold InInt64 kMinInt64 kMaxInt64 at *
    omega

namespace Decimal

/-- The number a value stands for: `AsUnbiased() / 10^Prec`. -/
def toRat {p : Nat} {rp : RoundPolicy} (x : Decimal p rp) : ℚ := x.unbiased / 10 ^ p

/-- `Decimal<prec, rp>::FromDecimal(source)`: raising the precision multiplies by
`10^(prec - Prec2)` with `__builtin_mul_overflow`; lowering it divides by `10^(Prec2 - prec)`
with the target's policy. -/
def fromDecimal (prec : Nat) (rp : RoundPolicy) {prec2 : Nat} {rp2 : RoundPolicy}
    (source : Decimal prec2 rp2) : Except DecimalError (Decimal prec rp) :=
  if prec > prec2 then do
    let result ← checkedInt64 (source.unbiased * 10 ^ (prec - prec2))
    pure (fromUnbiased result)
  else if prec < prec2 then do
    pure (fromUnbiased (← div rp source.unbiased (10 ^ (prec2 - prec)) false))
  else pure (fromUnbiased source.unbiased)

/-- `decimal_cast<Decimal<prec, rp>>(arg)`. -/
def decimalCast (prec : Nat) (rp : RoundPolicy) {oldPrec : Nat} {oldRound : RoundPolicy}
    (arg : Decimal oldPrec oldRound) : Except DecimalError (Decimal prec rp) :=
  fromDecimal prec rp arg

/-- The constructor `Decimal(Int value)`: `impl::ToInt64` rejects a 64-bit unsigned value above
`INT64_MAX`, then `FromDecimal(Decimal<0>::FromUnbiased(value))`. -/
def ofInt (prec : Nat) (rp : RoundPolicy) (value : Int) : Except DecimalError (Decimal prec rp) :=
  if value > kMaxInt64 then .error .outOfBounds
  else fromDecimal prec rp (fromUnbiased value : Decimal 0 .defRound)

variable {p q : Nat} {rp : RoundPolicy}

/-- `operator-()`: throws on `INT64_MIN`. -/
def neg (x : Decimal p rp) : Except DecimalError (Decimal p rp) :=
  if x.unbiased = kMinInt64 then .error .outOfBounds else .ok (fromUnbiased (-x.unbiased))

/-- `Abs()`: `FromUnbiased(impl::Abs(value_))`. -/
def abs (x : Decimal p rp) : Except DecimalError (Decimal p rp) := do
  pure (fromUnbiased (← Decimal64.abs x.unbiased))

/-- `operator+` and `operator-` of two values of one precision: `op` of the unbiased values,
and `OutOfBoundsError` from `__builtin_add_overflow` or `__builtin_sub_overflow` when it leaves
`int64_t`. -/
def checkedOp (op : Int → Int → Int) (x y : Decimal p rp) : Except DecimalError (Decimal p rp) := do
  pure (fromUnbiased (← checkedInt64 (op x.unbiased y.unbiased)))

/-- `operator+` and `operator-` of a `Decimal<p>` and a `Decimal<q>`: the operand of lower
precision is raised with `FromDecimal` to the other's, `max p q`, where `FromDecimal` leaves the
other operand as it is. -/
def mixedOp (op : Int → Int → Int) (x : Decimal p rp) (y : Decimal q rp) :
    Except DecimalError (Decimal (max p q) rp) := do
  checkedOp op (← fromDecimal (max p q) rp x) (← fromDecimal (max p q) rp y)

/-- `operator+(Decimal<Prec2>)`. -/
def add (x : Decimal p rp) (y : Decimal q rp) : Except DecimalError (Decimal (max p q) rp) :=
  mixedOp (· + ·) x y

/-- `operator-(Decimal<Prec2>)`. -/
def sub (x : Decimal p rp) (y : Decimal q rp) : Except DecimalError (Decimal (max p q) rp) :=
  mixedOp (· - ·) x y

/-- `operator+(Int rhs)`: `*this + Decimal{rhs}`, of one precision. -/
def addInt (x : Decimal p rp) (rhs : Int) : Except DecimalError (Decimal p rp) := do
  checkedOp (· + ·) x (← ofInt p rp rhs)

/-- `operator-(Int rhs)`: `*this - Decimal{rhs}`. -/
def subInt (x : Decimal p rp) (rhs : Int) : Except DecimalError (Decimal p rp) := do
  checkedOp (· - ·) x (← ofInt p rp rhs)

/-- `operator*(Int rhs)`: throws when `rhs` exceeds `INT64_MAX` (a 64-bit unsigned `rhs`) or the
product overflows. -/
def mulInt (x : Decimal p rp) (rhs : Int) : Except DecimalError (Decimal p rp) :=
  if rhs > kMaxInt64 then .error .outOfBounds
  else do pure (fromUnbiased (← checkedInt64 (x.unbiased * rhs)))

/-- `operator*(Decimal<Prec2>)`: `MulDiv(a, b, 10^Prec2)`. -/
def mul (x : Decimal p rp) (y : Decimal q rp) : Except DecimalError (Decimal p rp) := do
  pure (fromUnbiased (← mulDiv rp x.unbiased y.unbiased (10 ^ q)))

/-- `operator/(Int rhs)`: `Div(a, rhs)`. -/
def divInt (x : Decimal p rp) (rhs : Int) : Except DecimalError (Decimal p rp) := do
  pure (fromUnbiased (← Decimal64.div rp x.unbiased rhs false))

/-- `operator/(Decimal<Prec2>)`: `MulDiv(a, 10^Prec2, b)`. -/
def divide (x : Decimal p rp) (y : Decimal q rp) : Except DecimalError (Decimal p rp) := do
  pure (fromUnbiased (← mulDiv rp x.unbiased (10 ^ q) y.unbiased))

/-- `RoundToMultipleOf(base)`: throws for a negative `base`, then
`*this / base.AsUnbiased() * base.AsUnbiased()`. -/
def roundToMultipleOf (x base : Decimal p rp) : Except DecimalError (Decimal p rp) :=
  if base.unbiased < 0 then .error .outOfBounds
  else do (← x.divInt base.unbiased).mulInt base.unbiased

/-- `ToInteger()`: `Div(value, 10^Prec)`. -/
def toInteger (x : Decimal p rp) : Except DecimalError Int :=
  Decimal64.div rp x.unbiased (10 ^ p) false

/-! ## The value a `Decimal` stands for -/

section Value

theorem ext {x y : Decimal p rp} (h : x.unbiased = y.unbiased) : x = y := by
  cases x
  cases y
  cases h
  rfl

/-- A value is determined by the number it stands for. -/
theorem toRat_eq_iff {x : Decimal p rp} {v : ℚ} : x.toRat = v ↔ (x.unbiased : ℚ) = v * 10 ^ p := by
  unfold toRat
  rw [div_eq_iff (by positivity)]

/-- `FromUnbiased` of an `int64_t` returns it. -/
theorem ok_fromUnbiased_iff {ε : Type} {v : Int} (hv : InInt64 v) {y : Decimal p rp} :
    (Except.ok (fromUnbiased v) : Except ε (Decimal p rp)) = .ok y ↔ y.unbiased = v := by
  constructor
  · intro h
    cases h
    exact fromUnbiased_unbiased hv
  · intro h
    rw [ext (show (fromUnbiased v : Decimal p rp).unbiased = y.unbiased by
      rw [h, fromUnbiased_unbiased hv])]

/-- An unbiased value raised to a higher precision stands for the same number. -/
theorem toRat_scale (x : Decimal p rp) {m : Nat} (h : p ≤ m) :
    ((x.unbiased * 10 ^ (m - p) : Int) : ℚ) / 10 ^ m = x.toRat := by
  have hpow : (10 : ℚ) ^ m = 10 ^ (m - p) * 10 ^ p := by rw [← pow_add, Nat.sub_add_cancel h]
  unfold toRat
  rw [hpow]
  push_cast
  field_simp

end Value

/-! ## `FromDecimal` -/

section FromDecimal

variable {rp2 : RoundPolicy}

/-- Raising the precision (or keeping it) multiplies with an overflow check. -/
theorem fromDecimal_of_le {prec : Nat} (rp : RoundPolicy) (x : Decimal p rp2) (h : p ≤ prec) :
    fromDecimal prec rp x =
      if InInt64 (x.unbiased * 10 ^ (prec - p)) then .ok (fromUnbiased (x.unbiased * 10 ^ (prec - p)))
      else .error .outOfBounds := by
  unfold fromDecimal
  rcases h.lt_or_eq with hlt | rfl
  · rw [if_pos hlt]
    unfold checkedInt64
    split_ifs <;> rfl
  · rw [if_neg (lt_irrefl _), if_neg (lt_irrefl _), Nat.sub_self, pow_zero, mul_one,
      if_pos x.inInt64]
    rfl

/-- What raising the precision returns, on unbiased values. -/
theorem fromDecimal_of_le_eq_ok_iff {prec : Nat} (rp : RoundPolicy) (x : Decimal p rp2)
    (y : Decimal prec rp) (h : p ≤ prec) :
    fromDecimal prec rp x = .ok y ↔
      InInt64 (x.unbiased * 10 ^ (prec - p)) ∧ y.unbiased = x.unbiased * 10 ^ (prec - p) := by
  rw [fromDecimal_of_le rp x h]
  by_cases hfit : InInt64 (x.unbiased * 10 ^ (prec - p))
  · rw [if_pos hfit, ok_fromUnbiased_iff hfit]
    exact ⟨fun hy => ⟨hfit, hy⟩, fun hy => hy.2⟩
  · rw [if_neg hfit]
    exact ⟨fun hy => (nomatch hy), fun hy => absurd hy.1 hfit⟩

/-- Raising the precision is exact, and throws exactly when the scaled value leaves `int64_t`. -/
theorem fromDecimal_up_eq_ok_iff {prec : Nat} (rp : RoundPolicy) (x : Decimal p rp2)
    (y : Decimal prec rp) (h : p ≤ prec) :
    fromDecimal prec rp x = .ok y ↔ InInt64 (x.unbiased * 10 ^ (prec - p)) ∧ y.toRat = x.toRat := by
  rw [fromDecimal_of_le_eq_ok_iff rp x y h, toRat_eq_iff, ← toRat_scale x h,
    div_mul_cancel₀ _ (by positivity), Int.cast_inj]

theorem fromDecimal_up_eq_ok_iff_at_tenths :
    fromDecimal 1 .defRound (fromUnbiased 7 : Decimal 0 .halfEven) =
        .ok (fromUnbiased 70 : Decimal 1 .defRound) ↔
      InInt64 ((fromUnbiased 7 : Decimal 0 .halfEven).unbiased * 10 ^ (1 - 0)) ∧
        (fromUnbiased 70 : Decimal 1 .defRound).toRat =
          (fromUnbiased 7 : Decimal 0 .halfEven).toRat :=
  fromDecimal_up_eq_ok_iff .defRound _ _ (by decide)

/-- `10^k` for `k ≤ 18` is a divisor `Div` accepts. -/
theorem pow_ten_le_kMaxInt64 {k : Nat} (hk : k ≤ 18) : ((10 : Int) ^ k) ≤ kMaxInt64 :=
  le_trans (pow_le_pow_right₀ (by norm_num) hk) (by decide)

theorem natAbs_pow_ten (k : Nat) : ((10 : Int) ^ k).natAbs = 10 ^ k := by
  rw [Int.natAbs_pow]
  rfl

/-- Dividing by `10^k`, `k ≤ 18`, rounds with the policy whenever `|a| + 10^k / 2` is an
`int64_t`. -/
theorem div_pow_ten_eq_round (rp : RoundPolicy) {a : Int} {k : Nat} (hk : k ≤ 18)
    (hfit : (a.natAbs : Int) + 10 ^ k / 2 ≤ kMaxInt64) :
    Decimal64.div rp a (10 ^ k) false = .ok (rp.mode.round ((a : ℚ) / 10 ^ k)) := by
  obtain ⟨r, hr⟩ := div_ok rp false (a := a) (b := 10 ^ k) (by positivity)
    (by rw [natAbs_pow_ten]; exact_mod_cast pow_ten_le_kMaxInt64 hk)
    (by rw [natAbs_pow_ten]; exact_mod_cast hfit)
  rw [hr, div_eq_round_of_ok hr]
  push_cast
  rfl

/-- Lowering the precision by `k ≤ 18` digits rounds the number with the target's policy,
whenever `|x| + 10^k / 2` is an `int64_t`. -/
theorem fromDecimal_down_eq_round {prec : Nat} (rp : RoundPolicy) (x : Decimal p rp2)
    (h : prec < p) (hk : p - prec ≤ 18)
    (hfit : (x.unbiased.natAbs : Int) + 10 ^ (p - prec) / 2 ≤ kMaxInt64) :
    fromDecimal prec rp x = .ok (fromUnbiased (rp.mode.round (x.toRat * 10 ^ prec))) := by
  have hq : x.toRat * 10 ^ prec = (x.unbiased : ℚ) / 10 ^ (p - prec) := by
    have hpow : (10 : ℚ) ^ p = 10 ^ (p - prec) * 10 ^ prec := by
      rw [← pow_add, Nat.sub_add_cancel h.le]
    unfold toRat
    rw [hpow]
    field_simp
  unfold fromDecimal
  rw [if_neg (by omega), if_pos h, div_pow_ten_eq_round rp hk hfit, hq]
  rfl

theorem fromDecimal_down_eq_round_at_hundredths :
    fromDecimal 0 .halfEven (fromUnbiased 250 : Decimal 2 .defRound) =
      .ok (fromUnbiased (RoundPolicy.halfEven.mode.round
        ((fromUnbiased 250 : Decimal 2 .defRound).toRat * 10 ^ 0))) :=
  fromDecimal_down_eq_round .halfEven _ (by decide) (by decide) (by decide)

/-- Lowering the precision after raising it gives the value back, with any policy, whenever the
raised value leaves room for `DefRoundPolicy`'s guard. -/
theorem fromDecimal_fromDecimal {prec : Nat} (x : Decimal p rp) (y : Decimal prec rp2)
    (h : p < prec) (hk : prec - p ≤ 18) (hup : fromDecimal prec rp2 x = .ok y)
    (hfit : (y.unbiased.natAbs : Int) + 10 ^ (prec - p) / 2 ≤ kMaxInt64) :
    fromDecimal p rp y = .ok x := by
  have hy := ((fromDecimal_of_le_eq_ok_iff rp2 x y h.le).mp hup).2
  -- dividing the raised value by the same power of ten is exact
  have hexact : (y.unbiased : ℚ) / 10 ^ (prec - p) = x.unbiased := by
    rw [hy]
    push_cast
    field_simp
  unfold fromDecimal
  rw [if_neg (by omega), if_pos h, div_pow_ten_eq_round rp hk hfit, hexact,
    Rounding.round_intCast]
  change Except.ok (fromUnbiased x.unbiased) = _
  rw [fromUnbiased_self]

theorem fromDecimal_fromDecimal_at_tenths :
    fromDecimal 0 .halfEven (fromUnbiased 70 : Decimal 1 .defRound) =
      .ok (fromUnbiased 7 : Decimal 0 .halfEven) :=
  fromDecimal_fromDecimal (fromUnbiased 7) (fromUnbiased 70) (by decide) (by decide) rfl
    (by decide)

/-- The constructor `Decimal(Int value)` is exact, and throws exactly when `value * 10^Prec`
leaves `int64_t`. -/
theorem ofInt_eq_ok_iff {prec : Nat} (rp : RoundPolicy) {value : Int} (hlo : kMinInt64 ≤ value)
    (y : Decimal prec rp) :
    ofInt prec rp value = .ok y ↔ InInt64 (value * 10 ^ prec) ∧ y.toRat = value := by
  unfold ofInt
  by_cases hbig : value > kMaxInt64
  · -- only a 64-bit unsigned value gets here, and its multiples do not fit either
    rw [if_pos hbig]
    have hscaled : ¬InInt64 (value * 10 ^ prec) := by
      rintro ⟨-, hhi⟩
      have hpow : (1 : Int) ≤ 10 ^ prec := one_le_pow₀ (by norm_num)
      unfold kMaxInt64 at hbig hhi
      nlinarith
    exact ⟨fun h => (nomatch h), fun h => absurd h.1 hscaled⟩
  · have hv : InInt64 value := ⟨hlo, not_lt.mp hbig⟩
    rw [if_neg hbig, fromDecimal_of_le_eq_ok_iff rp _ y (Nat.zero_le prec),
      fromUnbiased_unbiased hv, Nat.sub_zero, toRat_eq_iff]
    norm_cast

theorem ofInt_eq_ok_iff_at_tenths :
    ofInt 1 .halfEven 7 = .ok (fromUnbiased 70 : Decimal 1 .halfEven) ↔
      InInt64 (7 * 10 ^ 1) ∧ (fromUnbiased 70 : Decimal 1 .halfEven).toRat = ((7 : Int) : ℚ) :=
  ofInt_eq_ok_iff .halfEven (by decide) _

end FromDecimal

/-! ## Addition and subtraction -/

section Additive

/-- `checkedOp` returns `op` of the values exactly when it is an `int64_t`. -/
theorem checkedOp_eq_ok_iff (op : Int → Int → Int) (x y z : Decimal p rp) :
    checkedOp op x y = .ok z ↔ z.unbiased = op x.unbiased y.unbiased := by
  unfold checkedOp checkedInt64
  by_cases hz : InInt64 (op x.unbiased y.unbiased)
  · rw [if_pos hz, Codec.ok_bind]
    exact ok_fromUnbiased_iff hz
  · rw [if_neg hz]
    exact ⟨fun h => (nomatch h), fun h => absurd (h ▸ z.inInt64) hz⟩

/-- `mixedOp` returns exactly when both raised operands and the result are `int64_t`s, and then
it returns `op` of the raised operands. -/
theorem mixedOp_eq_ok_iff (op : Int → Int → Int) (x : Decimal p rp) (y : Decimal q rp)
    (z : Decimal (max p q) rp) :
    mixedOp op x y = .ok z ↔ InInt64 (x.unbiased * 10 ^ (max p q - p)) ∧
      InInt64 (y.unbiased * 10 ^ (max p q - q)) ∧
      z.unbiased = op (x.unbiased * 10 ^ (max p q - p)) (y.unbiased * 10 ^ (max p q - q)) := by
  unfold mixedOp
  rw [fromDecimal_of_le rp x (le_max_left p q), fromDecimal_of_le rp y (le_max_right p q)]
  by_cases hx : InInt64 (x.unbiased * 10 ^ (max p q - p))
  · rw [if_pos hx, Codec.ok_bind]
    by_cases hy : InInt64 (y.unbiased * 10 ^ (max p q - q))
    · rw [if_pos hy, Codec.ok_bind, checkedOp_eq_ok_iff, fromUnbiased_unbiased hx,
        fromUnbiased_unbiased hy]
      exact ⟨fun h => ⟨hx, hy, h⟩, fun h => h.2.2⟩
    · rw [if_neg hy]
      exact ⟨fun h => (nomatch h), fun h => absurd h.2.1 hy⟩
  · rw [if_neg hx]
    exact ⟨fun h => (nomatch h), fun h => absurd h.1 hx⟩

/-- A raised unbiased value is the number scaled to the higher precision. -/
theorem toRat_mul_pow (x : Decimal p rp) {m : Nat} (h : p ≤ m) :
    x.toRat * 10 ^ m = ((x.unbiased * 10 ^ (m - p) : Int) : ℚ) := by
  rw [← toRat_scale x h, div_mul_cancel₀ _ (by positivity)]

/-- Addition is exact: it returns the sum, and throws exactly when the operand of lower
precision, raised, or the sum leaves `int64_t`. -/
theorem add_eq_ok_iff (x : Decimal p rp) (y : Decimal q rp) (z : Decimal (max p q) rp) :
    add x y = .ok z ↔ InInt64 (x.unbiased * 10 ^ (max p q - p)) ∧
      InInt64 (y.unbiased * 10 ^ (max p q - q)) ∧ z.toRat = x.toRat + y.toRat := by
  rw [add, mixedOp_eq_ok_iff, toRat_eq_iff, add_mul, toRat_mul_pow x (le_max_left p q),
    toRat_mul_pow y (le_max_right p q), ← Int.cast_add, Int.cast_inj]

/-- Subtraction is exact in the same way. -/
theorem sub_eq_ok_iff (x : Decimal p rp) (y : Decimal q rp) (z : Decimal (max p q) rp) :
    sub x y = .ok z ↔ InInt64 (x.unbiased * 10 ^ (max p q - p)) ∧
      InInt64 (y.unbiased * 10 ^ (max p q - q)) ∧ z.toRat = x.toRat - y.toRat := by
  rw [sub, mixedOp_eq_ok_iff, toRat_eq_iff, sub_mul, toRat_mul_pow x (le_max_left p q),
    toRat_mul_pow y (le_max_right p q), ← Int.cast_sub, Int.cast_inj]

end Additive

/-! ## Multiplication and division -/

section Multiplicative

/-- `10^q` for `q ≤ 18` is a divisor `MulDiv` handles. -/
theorem natAbs_pow_ten_le {k : Nat} (hk : k ≤ 18) : ((10 : Int) ^ k).natAbs ≤ 2 ^ 62 := by
  rw [natAbs_pow_ten]
  exact le_trans (Nat.pow_le_pow_right (by norm_num) hk) (by norm_num)

/-- What `MulDiv` returns, as a `Decimal`: exactly what it returns when that is an `int64_t`. -/
private theorem ok_mulDiv_iff {a b d : Int} (hd0 : d ≠ 0) (hd : d.natAbs ≤ 2 ^ 62) (z : Decimal p rp) :
    (do pure (fromUnbiased (← mulDiv rp a b d)) : Except DecimalError (Decimal p rp)) = .ok z ↔
      ¬((a * b).tdiv d ≤ kMinInt64 ∨ (a * b).tdiv d ≥ kMaxInt64) ∧
        z.unbiased = rp.mode.round (((a * b : Int) : ℚ) / d) := by
  by_cases hguard : (a * b).tdiv d ≤ kMinInt64 ∨ (a * b).tdiv d ≥ kMaxInt64
  · rw [mulDiv_of_guard hd0 hguard]
    exact ⟨fun h => (nomatch h), fun h => absurd hguard h.1⟩
  · obtain ⟨r, hr⟩ := mulDiv_ok rp hd0 hd hguard
    rw [hr, Codec.ok_bind, ← mulDiv_of_ok hr]
    change (Except.ok (fromUnbiased _) : Except DecimalError (Decimal p rp)) = .ok z ↔ _
    rw [ok_fromUnbiased_iff (mulDiv_inInt64 hr)]
    exact ⟨fun h => ⟨hguard, h⟩, fun h => h.2⟩

/-- `Decimal<p> * Decimal<q>` is the exact product rounded to `p` digits with the policy; it
throws exactly when `MulDiv`'s truncated quotient reaches either end of `int64_t`. -/
theorem mul_eq_ok_iff (x : Decimal p rp) (y : Decimal q rp) (z : Decimal p rp) (hq : q ≤ 18) :
    mul x y = .ok z ↔
      ¬((x.unbiased * y.unbiased).tdiv (10 ^ q) ≤ kMinInt64 ∨
        (x.unbiased * y.unbiased).tdiv (10 ^ q) ≥ kMaxInt64) ∧
      z.unbiased = rp.mode.round (x.toRat * y.toRat * 10 ^ p) := by
  have hvalue : x.toRat * y.toRat * 10 ^ p =
      ((x.unbiased * y.unbiased : Int) : ℚ) / (((10 : Int) ^ q : Int) : ℚ) := by
    unfold toRat
    push_cast
    field_simp
  rw [hvalue]
  exact ok_mulDiv_iff (by positivity) (natAbs_pow_ten_le hq) z

theorem mul_eq_ok_iff_at_tenths :
    mul (fromUnbiased 15 : Decimal 1 .halfEven) (fromUnbiased 5 : Decimal 1 .halfEven) =
        .ok (fromUnbiased 8 : Decimal 1 .halfEven) ↔
      ¬(((fromUnbiased 15 : Decimal 1 .halfEven).unbiased *
            (fromUnbiased 5 : Decimal 1 .halfEven).unbiased).tdiv (10 ^ 1) ≤ kMinInt64 ∨
          ((fromUnbiased 15 : Decimal 1 .halfEven).unbiased *
            (fromUnbiased 5 : Decimal 1 .halfEven).unbiased).tdiv (10 ^ 1) ≥ kMaxInt64) ∧
        (fromUnbiased 8 : Decimal 1 .halfEven).unbiased = RoundPolicy.halfEven.mode.round
          ((fromUnbiased 15 : Decimal 1 .halfEven).toRat *
            (fromUnbiased 5 : Decimal 1 .halfEven).toRat * 10 ^ 1) :=
  mul_eq_ok_iff _ _ _ (by decide)

/-- `Decimal<p> / Decimal<q>` is the exact quotient rounded to `p` digits with the policy, for a
divisor whose unbiased value is at most `2^62` in magnitude; it throws exactly on `MulDiv`'s
guard. -/
theorem divide_eq_ok_iff (x : Decimal p rp) (y : Decimal q rp) (z : Decimal p rp)
    (hy0 : y.unbiased ≠ 0) (hy : y.unbiased.natAbs ≤ 2 ^ 62) :
    divide x y = .ok z ↔
      ¬((x.unbiased * 10 ^ q).tdiv y.unbiased ≤ kMinInt64 ∨
        (x.unbiased * 10 ^ q).tdiv y.unbiased ≥ kMaxInt64) ∧
      z.unbiased = rp.mode.round (x.toRat / y.toRat * 10 ^ p) := by
  have hvalue : x.toRat / y.toRat * 10 ^ p =
      ((x.unbiased * 10 ^ q : Int) : ℚ) / (y.unbiased : ℚ) := by
    have hy' : (y.unbiased : ℚ) ≠ 0 := Int.cast_ne_zero.mpr hy0
    unfold toRat
    push_cast
    field_simp
  rw [hvalue]
  exact ok_mulDiv_iff hy0 hy z

theorem divide_eq_ok_iff_at_tenths :
    divide (fromUnbiased 15 : Decimal 1 .halfEven) (fromUnbiased 20 : Decimal 1 .halfEven) =
        .ok (fromUnbiased 8 : Decimal 1 .halfEven) ↔
      ¬(((fromUnbiased 15 : Decimal 1 .halfEven).unbiased * 10 ^ 1).tdiv
            (fromUnbiased 20 : Decimal 1 .halfEven).unbiased ≤ kMinInt64 ∨
          ((fromUnbiased 15 : Decimal 1 .halfEven).unbiased * 10 ^ 1).tdiv
            (fromUnbiased 20 : Decimal 1 .halfEven).unbiased ≥ kMaxInt64) ∧
        (fromUnbiased 8 : Decimal 1 .halfEven).unbiased = RoundPolicy.halfEven.mode.round
          ((fromUnbiased 15 : Decimal 1 .halfEven).toRat /
            (fromUnbiased 20 : Decimal 1 .halfEven).toRat * 10 ^ 1) :=
  divide_eq_ok_iff _ _ _ (by decide) (by decide)

/-- `Decimal<p> / n` is the number divided by `n` and rounded to `p` digits with the policy,
whenever `n` is a non-zero `int64_t` other than `INT64_MIN` and `|x| + |n| / 2` is an
`int64_t`. -/
theorem divInt_eq_ok_iff (x : Decimal p rp) (z : Decimal p rp) {n : Int} (hn0 : n ≠ 0)
    (hn : (n.natAbs : Int) ≤ kMaxInt64) (hfit : (x.unbiased.natAbs : Int) + n.natAbs / 2 ≤ kMaxInt64) :
    divInt x n = .ok z ↔ z.unbiased = rp.mode.round (x.toRat / n * 10 ^ p) := by
  have hvalue : x.toRat / n * 10 ^ p = (x.unbiased : ℚ) / n := by
    unfold toRat
    field_simp
  obtain ⟨r, hdiv⟩ := div_ok rp false hn0 hn hfit
  rw [div_eq_round_of_ok hdiv] at hdiv
  unfold divInt
  rw [hdiv, Codec.ok_bind, hvalue]
  change (Except.ok (fromUnbiased _) : Except DecimalError (Decimal p rp)) = .ok z ↔ _
  rw [ok_fromUnbiased_iff (div_inInt64 x.inInt64 hdiv)]

theorem divInt_eq_ok_iff_at_tenths :
    divInt (fromUnbiased 25 : Decimal 1 .halfEven) 2 = .ok (fromUnbiased 12 : Decimal 1 .halfEven) ↔
      (fromUnbiased 12 : Decimal 1 .halfEven).unbiased = RoundPolicy.halfEven.mode.round
        ((fromUnbiased 25 : Decimal 1 .halfEven).toRat / ((2 : Int) : ℚ) * 10 ^ 1) :=
  divInt_eq_ok_iff _ _ (by decide) (by decide) (by decide)

/-- `ToInteger()` is the number rounded to an integer with the policy, for `Prec ≤ 18` and
`|x| + 10^Prec / 2` an `int64_t`. -/
theorem toInteger_eq_round (x : Decimal p rp) (hp : p ≤ 18)
    (hfit : (x.unbiased.natAbs : Int) + 10 ^ p / 2 ≤ kMaxInt64) :
    toInteger x = .ok (rp.mode.round x.toRat) := by
  rw [toInteger, div_pow_ten_eq_round rp hp hfit, toRat]

theorem toInteger_eq_round_at_tenths :
    toInteger (fromUnbiased 25 : Decimal 1 .halfEven) =
      .ok (RoundPolicy.halfEven.mode.round (fromUnbiased 25 : Decimal 1 .halfEven).toRat) :=
  toInteger_eq_round _ (by decide) (by decide)

end Multiplicative

/-! ## `FromBiased` -/

section FromBiased

/-- `FromBiased(u, op)` for `op > Prec` divides `u` by `10^(op - Prec)` with the policy, whenever
`op - Prec ≤ 18` and `|u| + 10^(op - Prec) / 2` is an `int64_t`. -/
theorem fromBiased_eq_round {prec : Nat} (rp : RoundPolicy) {u op : Int} (hop : (prec : Int) < op)
    (hk : op - prec ≤ 18) (hfit : (u.natAbs : Int) + 10 ^ (op - prec).toNat / 2 ≤ kMaxInt64) :
    Decimal.fromBiased prec rp u op =
      .ok (fromUnbiased (rp.mode.round ((u : ℚ) / 10 ^ (op - prec).toNat))) := by
  have hpow : pow10 (-((prec : Int) - op)) = .ok (10 ^ (op - prec).toNat) := by
    unfold pow10 kMaxDecimalDigits
    rw [if_neg (by omega)]
    congr 3
    omega
  unfold Decimal.fromBiased
  rw [if_neg (by omega), hpow, Codec.ok_bind, div_pow_ten_eq_round rp (by omega) hfit]
  rfl

theorem fromBiased_eq_round_at_thousandths :
    Decimal.fromBiased 1 .halfEven 1250 3 =
      .ok (fromUnbiased (RoundPolicy.halfEven.mode.round (((1250 : Int) : ℚ) / 10 ^ ((3 : Int) - (1 : Nat)).toNat))) :=
  fromBiased_eq_round .halfEven (by decide) (by decide) (by decide)

end FromBiased

end Decimal

end Decimal64

end Userver
