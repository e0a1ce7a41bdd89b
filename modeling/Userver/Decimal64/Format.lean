import Userver.Decimal64.Parse
import Userver.Lib.DigitString

/-!
# Formatting decimals

`fmt::formatter<Decimal>::format` splits the value with `AsUnpacked`, optionally trims the
trailing zeros of the fractional part (`impl::TrimTrailingZeros`) and prints
`before.after` with the fractional part zero-padded to the remaining number of digits.  A
negative value is printed as `-` followed by the negated parts, so that `-0.5` keeps its sign
although its integral part is `0`.

`ToString(dec)` is the default format (`{}`, trailing zeros trimmed) and
`ToStringTrailingZeros(dec)` is `{:f}` (exactly `Prec` fractional digits).  Integers are printed
as `fmt` prints them: `fmtInt` for `{}` and `fmtPadded` for `{:0{}}`.
-/

namespace Userver

namespace Decimal64

/-- `fmt::format("{}", x)` of an integer. -/
def fmtInt (x : Int) : List Char :=
  if x < 0 then '-' :: Nat.toDigits 10 x.natAbs else Nat.toDigits 10 x.natAbs

/-- `fmt::format("{:0{}}", x, width)`: zero-padded on the left to `width` characters, the sign
counting towards the width. -/
def fmtPadded (x : Int) (width : Nat) : List Char :=
  if x < 0 then '-' :: (Nat.toDigits 10 x.natAbs).leftpad (width - 1) '0'
  else (Nat.toDigits 10 x.natAbs).leftpad width '0'

/-- One `if (after % kPow10<k> == 0)` step of `TrimTrailingZeros`: drop `k` trailing zeros. -/
def trimStep (k : Nat) (p : Int × Int) : Int × Int :=
  if p.1.tmod (10 ^ k) = 0 then (p.1.tdiv (10 ^ k), p.2 - k) else p

/-- `impl::TrimTrailingZeros(after, after_precision)`: removes the zeros on the right of
`after`, decreasing the precision accordingly; a zero `after` gets precision `0`. -/
def trimTrailingZeros (after afterPrecision : Int) : Int × Int :=
  if after = 0 then (0, 0)
  else trimStep 1 (trimStep 2 (trimStep 4 (trimStep 8 (trimStep 16 (after, afterPrecision)))))

/-- The parsed format spec of `fmt::formatter<Decimal>`: `{}` trims trailing zeros, `{:f}`
does not, `{:.N}` prints exactly `N` digits. -/
structure FormatSpec where
  removeTrailingZeros : Bool
  customPrecision : Option Nat
  deriving DecidableEq, Repr

/-- `fmt::formatter<Decimal>::format`. -/
def format {prec : Nat} {rp : RoundPolicy} (spec : FormatSpec) (dec : Decimal prec rp) :
    Except DecimalError (List Char) := do
  let afterDigits : Int := spec.customPrecision.getD prec
  let (before, after) ← asUnpackedPrec dec afterDigits
  let (after, afterDigits) :=
    if spec.removeTrailingZeros then trimTrailingZeros after afterDigits else (after, afterDigits)
  if afterDigits > 0 then
    if dec.sign = -1 then
      return '-' :: fmtInt (-before) ++ '.' :: fmtPadded (-after) afterDigits.toNat
    else
      return fmtInt before ++ '.' :: fmtPadded after afterDigits.toNat
  else
    return fmtInt before

/-- `ToString(dec)`: `fmt::to_string(dec)`, the `{}` format. -/
def toString {prec : Nat} {rp : RoundPolicy} (dec : Decimal prec rp) :
    Except DecimalError (List Char) :=
  format ⟨true, none⟩ dec

/-- `ToStringTrailingZeros(dec)`: the `{:f}` format. -/
def toStringTrailingZeros {prec : Nat} {rp : RoundPolicy} (dec : Decimal prec rp) :
    Except DecimalError (List Char) :=
  format ⟨false, none⟩ dec

/-- The text of a decimal as the formatter prints it: a `-` if `neg`, the digits of the integral
part `n` and, when `k > 0`, a dot and `a` zero-padded to `k` digits. -/
def canonicalText (neg : Bool) (n k a : Nat) : List Char :=
  (if neg then ['-'] else []) ++ Nat.toDigits 10 n ++
    (if k = 0 then [] else '.' :: (Nat.toDigits 10 a).leftpad k '0')

/-! ### What the formatter prints -/

theorem fmtInt_of_nonneg {x : Int} (hx : 0 ≤ x) : fmtInt x = Nat.toDigits 10 x.natAbs := by
  simp [fmtInt, Int.not_lt.2 hx]

theorem fmtInt_of_neg {x : Int} (hx : x < 0) : fmtInt x = '-' :: Nat.toDigits 10 x.natAbs := by
  simp [fmtInt, hx]

theorem fmtPadded_of_nonneg {x : Int} (hx : 0 ≤ x) (width : Nat) :
    fmtPadded x width = (Nat.toDigits 10 x.natAbs).leftpad width '0' := by
  simp [fmtPadded, Int.not_lt.2 hx]

/-- `r = (x, q)` writes the fractional part `a` of a value with `p` fractional digits with `q`
digits only: `a = x * 10^(p - q)` with `|x| < 10^q`. -/
structure FractionDigits (a : Int) (p : Nat) (r : Int × Int) : Prop where
  digits_nonneg : 0 ≤ r.2
  digits_le : r.2 ≤ p
  lt : r.1.natAbs < 10 ^ r.2.toNat
  eq : a = r.1 * 10 ^ (p - r.2.toNat)

/-- The shorter fractional part keeps the sign of the value. -/
theorem FractionDigits.fst_nonneg {a : Int} {p : Nat} {r : Int × Int} (h : FractionDigits a p r)
    (ha : 0 ≤ a) : 0 ≤ r.1 := by
  by_contra hx
  have := Int.mul_neg_of_neg_of_pos (Int.not_le.1 hx)
    (by positivity : (0 : Int) < 10 ^ (p - r.2.toNat))
  have := h.eq
  omega

theorem FractionDigits.fst_nonpos {a : Int} {p : Nat} {r : Int × Int} (h : FractionDigits a p r)
    (ha : a ≤ 0) : r.1 ≤ 0 := by
  by_contra hx
  have := Int.mul_pos (Int.not_le.1 hx) (by positivity : (0 : Int) < 10 ^ (p - r.2.toNat))
  have := h.eq
  omega

theorem FractionDigits.self {a : Int} {p : Nat} (ha : a.natAbs < 10 ^ p) :
    FractionDigits a p (a, p) where
  digits_nonneg := Int.natCast_nonneg p
  digits_le := le_refl _
  lt := by simpa using ha
  eq := by simp

/-- One step of `TrimTrailingZeros` keeps the value: `10^k` divides `x` only if `x` has more
than `k` digits, so the precision stays non-negative. -/
theorem FractionDigits.trimStep {a : Int} {p : Nat} {r : Int × Int} (h : FractionDigits a p r)
    (ha : a ≠ 0) (k : Nat) : FractionDigits a p (trimStep k r) := by
  obtain ⟨x, q⟩ := r
  unfold Userver.Decimal64.trimStep
  split
  · rename_i hmod
    obtain ⟨j, rfl⟩ := Int.eq_ofNat_of_zero_le h.digits_nonneg
    have hx0 : x ≠ 0 := by rintro rfl; exact ha (by simpa using h.eq)
    have hxy : x.tdiv (10 ^ k) * 10 ^ k = x := Int.tdiv_mul_cancel_of_tmod_eq_zero hmod
    have hy0 : x.tdiv (10 ^ k) ≠ 0 := by rintro hy; rw [hy, Int.zero_mul] at hxy; exact hx0 hxy.symm
    have habs : x.natAbs = (x.tdiv (10 ^ k)).natAbs * 10 ^ k := by
      conv_lhs => rw [← hxy]
      rw [Int.natAbs_mul, Int.natAbs_pow]; rfl
    have hlt : x.natAbs < 10 ^ j := by simpa using h.lt
    have hkj : k < j := by
      have h1 : 10 ^ k ≤ x.natAbs := by
        rw [habs]; exact Nat.le_mul_of_pos_left _ (Int.natAbs_pos.2 hy0)
      exact (Nat.pow_lt_pow_iff_right (by decide)).1 (lt_of_le_of_lt h1 hlt)
    have hj : ((j : Int) - k).toNat = j - k := by omega
    refine ⟨by simp only; omega, by simp only; have := h.digits_le; omega, ?_, ?_⟩
    · simp only [hj]
      have : (x.tdiv (10 ^ k)).natAbs * 10 ^ k < 10 ^ (j - k) * 10 ^ k := by
        rw [← habs, ← Nat.pow_add, Nat.sub_add_cancel hkj.le]; exact hlt
      exact Nat.lt_of_mul_lt_mul_right this
    · simp only [hj]
      have hjp : j ≤ p := by have := h.digits_le; omega
      calc a = x * 10 ^ (p - j) := by simpa using h.eq
        _ = x.tdiv (10 ^ k) * (10 ^ k * 10 ^ (p - j)) := by rw [← Int.mul_assoc, hxy]
        _ = x.tdiv (10 ^ k) * 10 ^ (p - (j - k)) := by
          rw [← Int.pow_add]; congr 2; omega
  · exact h

theorem trimTrailingZeros_fractionDigits {a : Int} {p : Nat} (ha : a.natAbs < 10 ^ p) :
    FractionDigits a p (trimTrailingZeros a p) := by
  unfold trimTrailingZeros
  split
  · rename_i h0
    exact ⟨le_refl _, Int.natCast_nonneg p, by simp, by simp [h0]⟩
  · rename_i h0
    exact ((((FractionDigits.self ha).trimStep h0 16).trimStep h0 8).trimStep h0 4).trimStep h0 2
      |>.trimStep h0 1

/-- `{}` and `{:f}` print the canonical text of the value: the sign, the integral part and the
fractional part with some number of digits that keeps its value. -/
theorem format_eq_canonicalText {prec : Nat} {rp : RoundPolicy} (rtz : Bool)
    (d : Decimal prec rp) :
    ∃ r, FractionDigits (asUnpacked d).2 prec r ∧
      format ⟨rtz, none⟩ d = .ok (canonicalText (decide (d.unbiased < 0))
        (asUnpacked d).1.natAbs r.2.toNat r.1.natAbs) := by
  have hlt := asUnpacked_snd_natAbs_lt d
  have hrec := asUnpacked_recombine d
  have hfd : FractionDigits (asUnpacked d).2 prec
      (if rtz then trimTrailingZeros (asUnpacked d).2 prec else ((asUnpacked d).2, prec)) := by
    cases rtz
    · exact FractionDigits.self hlt
    · exact trimTrailingZeros_fractionDigits hlt
  refine ⟨_, hfd, ?_⟩
  simp only [format, Option.getD_none, asUnpackedPrec_self, pure_bind]
  generalize (if rtz then trimTrailingZeros (asUnpacked d).2 prec
    else ((asUnpacked d).2, (prec : Int))) = r at hfd ⊢
  obtain ⟨x, q⟩ := r
  obtain ⟨j, rfl⟩ := Int.eq_ofNat_of_zero_le hfd.digits_nonneg
  have hsign : d.sign = -1 ↔ d.unbiased < 0 := Int.sign_eq_neg_one_iff_neg
  have heq : (asUnpacked d).2 = x * 10 ^ (prec - j) := by simpa using hfd.eq
  simp only [Int.toNat_natCast, canonicalText]
  rcases Nat.eq_zero_or_pos j with rfl | hj
  · -- no fractional digits are printed: the fractional part is zero
    have hx : x = 0 := by simpa using hfd.lt
    have ha : (asUnpacked d).2 = 0 := by simpa [hx] using heq
    by_cases hneg : d.unbiased < 0
    · have hb : (asUnpacked d).1 < 0 := by
        by_contra hb
        have := Int.mul_nonneg (Int.not_lt.1 hb) (by positivity : (0 : Int) ≤ 10 ^ prec)
        omega
      simp [hneg, fmtInt_of_neg hb]
      rfl
    · simp [hneg, fmtInt_of_nonneg (asUnpacked_nonneg (Int.not_lt.1 hneg)).1]
      rfl
  · by_cases hneg : d.unbiased < 0
    · obtain ⟨hb, ha⟩ := asUnpacked_nonpos hneg
      have hx : x ≤ 0 := hfd.fst_nonpos ha
      simp [hj, hsign.2 hneg, hneg, Nat.pos_iff_ne_zero.1 hj,
        fmtInt_of_nonneg (Int.neg_nonneg_of_nonpos hb), fmtPadded_of_nonneg (Int.neg_nonneg_of_nonpos hx)]
      rfl
    · obtain ⟨hb, ha⟩ := asUnpacked_nonneg (Int.not_lt.1 hneg)
      have hx : 0 ≤ x := hfd.fst_nonneg ha
      simp [hj, mt hsign.1 hneg, hneg, Nat.pos_iff_ne_zero.1 hj, fmtInt_of_nonneg hb,
        fmtPadded_of_nonneg hx]
      rfl

end Decimal64

end Userver
