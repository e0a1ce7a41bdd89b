import Userver.Decimal64.Format
import Userver.Decimal64.Read

/-!
# Reading back what the formatter prints

`ToString` and `ToStringTrailingZeros` print a decimal as `canonicalText`
(`format_eq_canonicalText`): an optional `-`, the digits of the integral part and, if any
fractional digits are left, a dot and the fractional part zero-padded to its width.  Such a text
is a decimal without exponent, so the runs of `Userver.Decimal64.Read` compute what
`impl::Parse` makes of it (`parse_canonicalText`), for the options of the strict constructor and
of `FromStringPermissive` alike.  Together they give the serialization cycle of the header's
documentation, `Decimal{ToString(d)} == d`, for every value whose integral part passes the
parser's guards: at most `kMaxDecimalDigits` digits and below `kMaxInt64 / 10^Prec`.  Above that
bound the formatter prints what the parser rejects (`toString_kMaxInt64_fromString_overflow`).
-/

namespace Userver

namespace Decimal64

open DigitString

variable {o : ParseOptions}

/-- The parser variables at the end of a whole canonical text. -/
theorem parseLoop_canonicalText (neg : Bool) {n k a : Nat} (hn : n < 10 ^ kMaxDecimalDigits)
    (hk : k ≤ kMaxDecimalDigits) (ha : a < 10 ^ k) :
    FractionRead neg n k a (parseLoop o ParseLoop.init [] (canonicalText neg n k a)).1 := by
  have hsign : (if neg then ['-'] else []) = signText (if neg then some true else none) := by
    cases neg <;> rfl
  obtain ⟨s0, acc0, h0, hs0⟩ := parseLoop_signText (o := o) (if neg then some true else none)
    (Nat.toDigits 10 n ++ if k = 0 then [] else '.' :: (Nat.toDigits 10 a).leftpad k '0')
  have hneg : decide ((if neg then some true else none) = some true) = neg := by cases neg <;> rfl
  rw [hneg] at hs0
  obtain ⟨s1, acc1, h1, hs1⟩ := parseLoop_integralDigits Nat.toDigits_ne_nil (allDigits_toDigits n)
    (by rw [Nat.ofDigitChars_ten_toDigits]; exact hn) hs0 acc0
    (if k = 0 then [] else '.' :: (Nat.toDigits 10 a).leftpad k '0')
  rw [Nat.ofDigitChars_ten_toDigits] at hs1
  unfold canonicalText
  rw [hsign, List.append_assoc, h0, h1]
  by_cases hk0 : k = 0
  · subst hk0
    obtain rfl : a = 0 := by simpa using ha
    exact hs1.fractionRead
  · -- the fractional part is printed with exactly `k` digits
    have hlen : ((Nat.toDigits 10 a).leftpad k '0').length = k :=
      length_leftpad (length_toDigits_le (Nat.pos_of_ne_zero hk0) ha)
    have hval : Nat.ofDigitChars 10 ((Nat.toDigits 10 a).leftpad k '0') 0 = a := by
      rw [ofDigitChars_leftpad, Nat.ofDigitChars_ten_toDigits]
    obtain ⟨s2, acc2, h2, hs2⟩ := parseLoop_fractionDigits (o := o)
      (f := (Nat.toDigits 10 a).leftpad k '0') (by rw [← List.length_pos_iff, hlen]; omega)
      (allDigits_leftpad k (allDigits_toDigits a)) (.inl (by rw [hlen]; exact hk)) hs1 acc1 []
    rw [hlen, hval] at hs2
    rw [if_neg hk0, ← List.append_nil ('.' :: (Nat.toDigits 10 a).leftpad k '0'), h2]
    exact hs2

theorem parseUnpacked_canonicalText (neg : Bool) {n k a : Nat} (hn : n < 10 ^ kMaxDecimalDigits)
    (hk : k ≤ kMaxDecimalDigits) (ha : a < 10 ^ k) :
    UnpackedRead neg n k a (parseUnpacked o (canonicalText neg n k a)) :=
  parseUnpacked_of_fractionRead (parseLoop_canonicalText neg hn hk ha)

/-- `Parse` reads a canonical text back as the value it denotes. -/
theorem parse_canonicalText (prec : Nat) (rp : RoundPolicy) (neg : Bool) {n k a : Nat}
    (hp : prec ≤ kMaxDecimalDigits) (hk : k ≤ prec) (ha : a < 10 ^ k)
    (hn : (n : Int) < kMaxInt64.tdiv (10 ^ prec)) (hn18 : n < 10 ^ kMaxDecimalDigits) :
    parse prec rp o (canonicalText neg n k a) =
      pure (Decimal.fromUnbiased (if neg then -((n : Int) * 10 ^ prec + a * 10 ^ (prec - k))
        else (n : Int) * 10 ^ prec + a * 10 ^ (prec - k))) :=
  parse_of_unpackedRead prec rp (parseUnpacked_canonicalText neg hn18 (hk.trans hp) ha) hp ha
    (.inl hk) hn

/-- The value read back from the printed parts is the value printed. -/
theorem canonical_value_eq {prec : Nat} {rp : RoundPolicy} (d : Decimal prec rp) {x : Int} {j : Nat}
    (hfd : FractionDigits (asUnpacked d).2 prec (x, j)) :
    (if decide (d.unbiased < 0) then
      -(((asUnpacked d).1.natAbs : Int) * 10 ^ prec + (x.natAbs : Int) * 10 ^ (prec - j))
    else ((asUnpacked d).1.natAbs : Int) * 10 ^ prec + (x.natAbs : Int) * 10 ^ (prec - j)) =
      d.unbiased := by
  have heq : (asUnpacked d).2 = x * 10 ^ (prec - j) := by simpa using hfd.eq
  have hrec := asUnpacked_recombine d
  by_cases hneg : d.unbiased < 0
  · obtain ⟨hb, ha⟩ := asUnpacked_nonpos hneg
    have hx : x ≤ 0 := hfd.fst_nonpos ha
    simp only [hneg, decide_true, if_true, Int.ofNat_natAbs_of_nonpos hb,
      Int.ofNat_natAbs_of_nonpos hx]
    rw [← hrec, heq]
    ring
  · obtain ⟨hb, ha⟩ := asUnpacked_nonneg (Int.not_lt.1 hneg)
    have hx : 0 ≤ x := hfd.fst_nonneg ha
    simp only [hneg, decide_false, Bool.false_eq_true, if_false, Int.natAbs_of_nonneg hb,
      Int.natAbs_of_nonneg hx]
    rw [← hrec, heq]

/-- Printing with `{}` or `{:f}` and parsing back with any options gives the value back, when
its integral part passes the parser's guards. -/
theorem format_parse_cycle {prec : Nat} {rp : RoundPolicy} (rtz : Bool) (d : Decimal prec rp)
    (hp : prec ≤ kMaxDecimalDigits)
    (hn : ((asUnpacked d).1.natAbs : Int) < kMaxInt64.tdiv (10 ^ prec))
    (hn18 : (asUnpacked d).1.natAbs < 10 ^ kMaxDecimalDigits) :
    (format ⟨rtz, none⟩ d >>= parse prec rp o) = .ok d := by
  obtain ⟨r, hfd, hfmt⟩ := format_eq_canonicalText rtz d
  obtain ⟨x, q⟩ := r
  obtain ⟨j, rfl⟩ := Int.eq_ofNat_of_zero_le hfd.digits_nonneg
  have hj : j ≤ prec := by simpa using hfd.digits_le
  have hx : x.natAbs < 10 ^ j := by simpa using hfd.lt
  rw [hfmt]
  simp only [Int.toNat_natCast]
  change parse prec rp o _ = _
  rw [parse_canonicalText prec rp _ hp hj hx hn hn18, canonical_value_eq d hfd,
    Decimal.fromUnbiased_self]
  rfl

/-- The serialization cycle of the documentation: `ToString` and `ToStringTrailingZeros` read
back by the strict constructor, and `ToString` read back by `FromStringPermissive`, for every
value whose integral part has at most `kMaxDecimalDigits` digits and stays below the parser's
bound `kMaxInt64 / 10^Prec`. -/
theorem toString_fromString_cycle {prec : Nat} {rp : RoundPolicy} (d : Decimal prec rp)
    (hp : prec ≤ kMaxDecimalDigits)
    (hn : ((asUnpacked d).1.natAbs : Int) < kMaxInt64.tdiv (10 ^ prec))
    (hn18 : (asUnpacked d).1.natAbs < 10 ^ kMaxDecimalDigits) :
    (toString d >>= Decimal.fromString prec rp) = .ok d ∧
      (toStringTrailingZeros d >>= Decimal.fromString prec rp) = .ok d ∧
      (toString d >>= Decimal.fromStringPermissive prec rp) = .ok d :=
  ⟨format_parse_cycle true d hp hn hn18, format_parse_cycle false d hp hn hn18,
    format_parse_cycle true d hp hn hn18⟩

theorem toString_fromString_cycle_minus_five_hundredths :
    let d : Decimal 2 .halfEven := Decimal.fromUnbiased (-5)
    (toString d >>= Decimal.fromString 2 .halfEven) = .ok d ∧
      (toStringTrailingZeros d >>= Decimal.fromString 2 .halfEven) = .ok d ∧
      (toString d >>= Decimal.fromStringPermissive 2 .halfEven) = .ok d :=
  toString_fromString_cycle _ (by decide) (by decide) (by decide)

/-- The largest `Decimal<0>` is printed as its 19 digits, which the parser rejects as an
overflow at the 19th digit. -/
theorem toString_kMaxInt64_fromString_overflow :
    (toString (Decimal.fromUnbiased kMaxInt64 : Decimal 0 .defRound) >>=
      Decimal.fromString 0 .defRound) = .error (.parse .overflow 18) := by
  decide

end Decimal64

end Userver
