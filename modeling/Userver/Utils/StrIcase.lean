import Userver.Utils.ByteUtils

/-!
# Case-insensitive ordering of strings

`str_icase.cpp` orders byte strings without the case of 'A'..'Z':

* `StrIcaseEqual` is `impl::CaseInsensitiveEqual`, the block comparison of `byte_utils.cpp`
  (`Impl.caseInsensitiveEqual`);
* `StrIcaseCompareThreeWay` walks both strings a byte at a time and returns the difference of the
  first pair of bytes that differ once lowered, or the comparison of the lengths;
* `StrIcaseLess` is that result below zero.

The results:

* `noCaseEqual_eq_compareNaive`: `NoCaseEqual` through either fetcher answers what the byte loop
  `CompareNaive` answers on strings of one length, for every length: the chunks of sixteen, the
  chunk of eight and the overlapping suffix of eight decide the string as one loop does.
* `strIcaseCompareThreeWay_compare`: the sign of `StrIcaseCompareThreeWay` is the lexicographic
  comparison of the lowered strings.  So it is zero exactly when `CaseInsensitiveEqual` holds,
  and `StrIcaseLess` is a strict order whose incomparable pairs are the pairs `StrIcaseEqual`
  accepts (`strIcaseLess_irrefl`, `strIcaseLess_trans`,
  `not_strIcaseLess_iff_caseInsensitiveEqual`): the containers
  keyed by `StrIcaseLess` and the hash tables keyed by `StrIcaseEqual` agree on what one key is.
-/

namespace Userver

namespace Utils

open Impl Http.Headers

/-- `StrIcaseCompareThreeWay::operator()`: for each pair of bytes below the shorter length, equal
bytes and bytes equal once lowered go on; the first other pair returns the difference of the
lowered bytes.  When one string runs out, the shorter one is less. -/
def strIcaseCompareThreeWay : List UInt8 → List UInt8 → Int
  | a :: lhs, b :: rhs =>
    if a == b then strIcaseCompareThreeWay lhs rhs
    else if naiveLower a == naiveLower b then strIcaseCompareThreeWay lhs rhs
    else ((naiveLower a).toNat : Int) - (naiveLower b).toNat
  | [], [] => 0
  | [], _ :: _ => -1
  | _ :: _, [] => 1

/-- `StrIcaseLess::operator()`. -/
def strIcaseLess (lhs rhs : List UInt8) : Bool := strIcaseCompareThreeWay lhs rhs < 0

/-! ## `NoCaseEqual` and `CompareNaive` -/

theorem noCaseEqual_eq {C : Comparer} (hC : C.Exact) (lhs rhs : List UInt8) :
    noCaseEqual C lhs rhs = if lhs.length = rhs.length then compareNaive lhs rhs else false := by
  split
  · rename_i hlen
    rw [Bool.eq_iff_iff, noCaseEqual_iff hC, compareNaive_iff hlen]
  · rename_i hlen
    rw [Bool.eq_false_iff]
    intro h
    exact hlen (length_eq_of_lowered ((noCaseEqual_iff hC lhs rhs).1 h))

/-! ## The sign of `StrIcaseCompareThreeWay` -/

/-- The difference of two bytes, as `static_cast<int>(a) - static_cast<int>(b)` takes it, compares
with zero as the bytes compare. -/
theorem compare_sub_toNat (a b : UInt8) : compare ((a.toNat : Int) - b.toNat) 0 = compare a b := by
  rw [Int.compare_eq_ite_lt, show compare a b = compareOfLessAndEq a b from rfl]
  unfold compareOfLessAndEq
  simp only [UInt8.lt_iff_toNat_lt, ← UInt8.toNat_inj]
  -- the branches that agree close by `rfl`, the others have contradictory conditions
  split_ifs <;> first | rfl | omega

/-- Bytes that `CompareNaive` passes over lower alike. -/
theorem toLowerAscii_eq_of_naive {a b : UInt8} (h : (a == b || naiveLower a == naiveLower b) = true) :
    toLowerAscii a = toLowerAscii b := by
  rw [← naiveLower_eq]
  rcases Bool.or_eq_true_iff.1 h with h | h
  · rw [eq_of_beq h]
  · exact eq_of_beq h

theorem strIcaseCompareThreeWay_compare (lhs rhs : List UInt8) :
    compare (strIcaseCompareThreeWay lhs rhs) 0 = compare (lhs.map toLowerAscii) (rhs.map toLowerAscii) := by
  fun_induction strIcaseCompareThreeWay lhs rhs with
  | case1 a lhs b rhs hab ih =>
    -- equal bytes: the lowered heads compare equal and the tails decide
    have hlow : toLowerAscii a = toLowerAscii b := toLowerAscii_eq_of_naive (by simp [hab])
    rw [List.map_cons, List.map_cons, List.compare_cons_cons, hlow, Std.compare_self,
      Ordering.eq_then, ih]
  | case2 a lhs b rhs hab hlow ih =>
    have hlow : toLowerAscii a = toLowerAscii b := toLowerAscii_eq_of_naive (by simp [hlow])
    rw [List.map_cons, List.map_cons, List.compare_cons_cons, hlow, Std.compare_self,
      Ordering.eq_then, ih]
  | case3 a lhs b rhs hab hlow =>
    -- the first pair that differs once lowered decides
    have hne : compare (naiveLower a) (naiveLower b) ≠ .eq := by
      rw [Ne, Std.compare_eq_iff_eq]
      simpa using hlow
    rw [List.map_cons, List.map_cons, List.compare_cons_cons, compare_sub_toNat, ← naiveLower_eq]
    revert hne
    cases compare (naiveLower a) (naiveLower b) <;> simp
  | case4 => rfl
  | case5 => rfl
  | case6 => rfl

-- "aB" against "Ac": the first bytes are equal once lowered, the second ones decide
example : strIcaseCompareThreeWay [0x61, 0x42] [0x41, 0x63] = -1 := by decide

theorem strIcaseCompareThreeWay_eq_zero_iff (lhs rhs : List UInt8) :
    strIcaseCompareThreeWay lhs rhs = 0 ↔ lhs.map toLowerAscii = rhs.map toLowerAscii := by
  rw [← Int.compare_eq_eq, strIcaseCompareThreeWay_compare, Std.compare_eq_iff_eq]

theorem strIcaseLess_iff (lhs rhs : List UInt8) :
    strIcaseLess lhs rhs = true ↔ compare (lhs.map toLowerAscii) (rhs.map toLowerAscii) = .lt := by
  rw [strIcaseLess, decide_eq_true_iff, ← Int.compare_eq_lt, strIcaseCompareThreeWay_compare]

/-- For every pair of strings: `NoCaseEqual` through either fetcher is
`CompareNaive` guarded by the lengths, and the three-way comparison is zero exactly when
`CaseInsensitiveEqual` holds, whichever fetcher that uses. -/
theorem noCaseEqual_eq_compareNaive (lhs rhs : List UInt8) :
    noCaseEqual caseInsensitiveComparer lhs rhs =
        (if lhs.length = rhs.length then compareNaive lhs rhs else false) ∧
      noCaseEqual caseInsensitiveSseComparer lhs rhs =
        (if lhs.length = rhs.length then compareNaive lhs rhs else false) ∧
      ∀ sse2 : Bool, strIcaseCompareThreeWay lhs rhs = 0 ↔ caseInsensitiveEqual sse2 lhs rhs = true := by
  refine ⟨noCaseEqual_eq caseInsensitiveComparer_exact lhs rhs,
    noCaseEqual_eq caseInsensitiveSseComparer_exact lhs rhs, fun sse2 => ?_⟩
  rw [strIcaseCompareThreeWay_eq_zero_iff, caseInsensitiveEqual_iff]

/-! ## `StrIcaseLess` is a strict weak order -/

theorem strIcaseLess_irrefl (s : List UInt8) : strIcaseLess s s = false := by
  rw [Bool.eq_false_iff, Ne, strIcaseLess_iff, Std.compare_self]
  simp

theorem strIcaseLess_trans {a b c : List UInt8} (hab : strIcaseLess a b = true)
    (hbc : strIcaseLess b c = true) : strIcaseLess a c = true := by
  rw [strIcaseLess_iff] at *
  exact Std.TransCmp.lt_trans hab hbc

/-- Two strings neither of which is less than the other are the pairs `StrIcaseEqual` accepts. -/
theorem not_strIcaseLess_iff_caseInsensitiveEqual (sse2 : Bool) (a b : List UInt8) :
    (strIcaseLess a b = false ∧ strIcaseLess b a = false) ↔ caseInsensitiveEqual sse2 a b = true := by
  have hswap : compare (b.map toLowerAscii) (a.map toLowerAscii) = .lt ↔
      compare (a.map toLowerAscii) (b.map toLowerAscii) = .gt := Std.OrientedCmp.gt_iff_lt.symm
  have heq : a.map toLowerAscii = b.map toLowerAscii ↔
      compare (a.map toLowerAscii) (b.map toLowerAscii) = .eq := Std.compare_eq_iff_eq.symm
  rw [caseInsensitiveEqual_iff, heq, Bool.eq_false_iff, Bool.eq_false_iff, Ne, Ne,
    strIcaseLess_iff, strIcaseLess_iff, hswap]
  cases compare (a.map toLowerAscii) (b.map toLowerAscii) <;> simp

end Utils

end Userver
