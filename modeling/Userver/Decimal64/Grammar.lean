import Userver.Decimal64.Read

/-!
# The grammar of the strict constructor

The header documents `Decimal(std::string_view)` as accepting `[+-]?[0-9]+(\.[0-9]+)?`.
`StrictText` is a text of that grammar, built from its parts, so that a malformed text cannot be
built; `StrictText.value` is the rational number it denotes.

`StrictText.Accepted` says which of these texts the parser takes by design: at most `Prec`
fractional digits (the `kRounding` check of `Parse`, which counts trailing zeros), or an all-zero
fraction of at least `kMaxDecimalDigits` digits (which `ParseUnpacked` forgets before that check),
and an integral part with at most `kMaxDecimalDigits` significant digits that stays below the
overflow guard `kMaxInt64 / 10^Prec`.  `parse_strictText` computes `Parse` on an accepted text
for every set of options: the value it denotes, exactly.
-/

namespace Userver

namespace Decimal64

open DigitString

/-- A text of the grammar `[+-]?[0-9]+(\.[0-9]+)?`. -/
structure StrictText where
  sign : Option Bool
  integral : List Char
  fraction : Option (List Char)
  integral_ne : integral ≠ []
  integral_digits : AllDigits integral
  fraction_ne : fraction ≠ some []
  fraction_digits : ∀ f, fraction = some f → AllDigits f

namespace StrictText

/-- The dot and the fractional digits, if any. -/
def fractionText : Option (List Char) → List Char
  | none => []
  | some f => '.' :: f

/-- The characters of the text. -/
def text (t : StrictText) : List Char :=
  signText t.sign ++ t.integral ++ fractionText t.fraction

/-- The fractional digits; none without a dot. -/
def fractionDigits (t : StrictText) : List Char := t.fraction.getD []

/-- The text starts with `-`. -/
def isNegative (t : StrictText) : Bool := decide (t.sign = some true)

/-- The value of the integral digits. -/
def integralValue (t : StrictText) : Nat := Nat.ofDigitChars 10 t.integral 0

/-- The value of the fractional digits, as an integer. -/
def fractionValue (t : StrictText) : Nat := Nat.ofDigitChars 10 t.fractionDigits 0

/-- The rational number the text denotes. -/
def value (t : StrictText) : ℚ :=
  (if t.isNegative then -1 else 1) *
    (t.integralValue + (t.fractionValue : ℚ) / 10 ^ t.fractionDigits.length)

/-- The unbiased value `Parse` builds for the text at precision `prec`: the integral part scaled
by `10^prec`, plus the fractional digits scaled to `prec` digits, with the sign. -/
def unbiasedValue (prec : Nat) (t : StrictText) : Int :=
  let v : Int := t.integralValue * 10 ^ prec + t.fractionValue * 10 ^ (prec - t.fractionDigits.length)
  if t.isNegative then -v else v

/-- The texts the strict constructor takes by design. -/
def Accepted (prec : Nat) (t : StrictText) : Prop :=
  (t.fractionDigits.length ≤ prec ∨
      kMaxDecimalDigits ≤ t.fractionDigits.length ∧ ∀ c ∈ t.fractionDigits, c = '0') ∧
    t.integralValue < 10 ^ kMaxDecimalDigits ∧
    (t.integralValue : Int) < kMaxInt64.tdiv (10 ^ prec)

instance (prec : Nat) (t : StrictText) : Decidable (t.Accepted prec) :=
  inferInstanceAs (Decidable (_ ∧ _))

theorem fractionValue_lt (t : StrictText) : t.fractionValue < 10 ^ t.fractionDigits.length := by
  have hd : AllDigits t.fractionDigits := by
    unfold fractionDigits
    cases hf : t.fraction with
    | none => exact allDigits_nil
    | some f => exact t.fraction_digits f hf
  have h := ofDigitChars_lt hd 0
  rw [Nat.zero_add, Nat.mul_one] at h
  exact h

theorem fractionValue_eq_zero {t : StrictText} (h : ∀ c ∈ t.fractionDigits, c = '0') :
    t.fractionValue = 0 := by
  unfold fractionValue
  rw [List.eq_replicate_iff.2 ⟨rfl, h⟩, Nat.ofDigitChars_replicate_zero, Nat.mul_zero]

/-- The value times `10^Prec` is the integer `Parse` builds, when the fractional digits fit. -/
theorem value_mul_pow {t : StrictText} {prec : Nat}
    (hk : t.fractionDigits.length ≤ prec ∨ t.fractionValue = 0) :
    t.value * 10 ^ prec = (t.unbiasedValue prec : ℚ) := by
  have hsplit : ((t.fractionValue : ℚ) / 10 ^ t.fractionDigits.length) * 10 ^ prec =
      (t.fractionValue : ℚ) * 10 ^ (prec - t.fractionDigits.length) := by
    rcases hk with hk | h0
    · have h10 : (10 : ℚ) ^ prec =
          10 ^ (prec - t.fractionDigits.length) * 10 ^ t.fractionDigits.length := by
        rw [← pow_add, Nat.sub_add_cancel hk]
      rw [h10]
      field_simp
    · simp [h0]
  unfold value unbiasedValue
  cases t.isNegative with
  | false =>
    simp only [Bool.false_eq_true, if_false]
    push_cast
    linear_combination hsplit
  | true =>
    simp only [if_true]
    push_cast
    linear_combination (-1 : ℚ) * hsplit

/-- An accepted text denotes an `int64_t` unbiased value. -/
theorem unbiasedValue_inInt64 {prec : Nat} {t : StrictText} (ht : t.Accepted prec) :
    InInt64 (t.unbiasedValue prec) := by
  obtain ⟨hfrac, -, hguard⟩ := ht
  -- the fractional digits fit, or they are all zeros and contribute nothing
  have hle : (t.integralValue : Int) * 10 ^ prec +
      t.fractionValue * 10 ^ (prec - t.fractionDigits.length) ≤ kMaxInt64 := by
    rcases hfrac with hk | ⟨-, h0⟩
    · exact unpacked_value_le hk t.fractionValue_lt hguard
    · have := unpacked_value_le (k := 0) (a := 0) (Nat.zero_le prec) (by decide) hguard
      simpa [fractionValue_eq_zero h0] using this
  have hnn : (0 : Int) ≤ t.integralValue * 10 ^ prec +
      t.fractionValue * 10 ^ (prec - t.fractionDigits.length) := by positivity
  unfold kMaxInt64 at hle
  unfold unbiasedValue InInt64 kMinInt64 kMaxInt64
  simp only
  split <;> constructor <;> omega

end StrictText

variable {o : ParseOptions}

/-- The loop reads a text of the grammar to the end, through its sign, integral and fractional
parts. -/
theorem parseLoop_strictText (t : StrictText) (hint : t.integralValue < 10 ^ kMaxDecimalDigits)
    (hfit : t.fractionDigits.length ≤ kMaxDecimalDigits ∨
      (∀ c ∈ t.fractionDigits, c = '0') ∧ t.fractionDigits.length < 256) :
    FractionRead t.isNegative t.integralValue t.fractionDigits.length t.fractionValue
      (parseLoop o ParseLoop.init [] t.text).1 := by
  obtain ⟨s0, acc0, h0, hs0⟩ := parseLoop_signText (o := o) t.sign
    (t.integral ++ StrictText.fractionText t.fraction)
  obtain ⟨s1, acc1, h1, hs1⟩ := parseLoop_integralDigits t.integral_ne t.integral_digits hint hs0
    acc0 (StrictText.fractionText t.fraction)
  unfold StrictText.text
  rw [List.append_assoc, h0, h1]
  unfold StrictText.fractionValue
  cases hf : t.fraction with
  | none =>
    have hfd : t.fractionDigits = [] := by simp [StrictText.fractionDigits, hf]
    rw [hfd]
    exact hs1.fractionRead
  | some f =>
    have hfd : t.fractionDigits = f := by simp [StrictText.fractionDigits, hf]
    rw [hfd] at hfit ⊢
    obtain ⟨s2, acc2, h2, hs2⟩ := parseLoop_fractionDigits (o := o) (f := f)
      (fun h => t.fraction_ne (h ▸ hf)) (t.fraction_digits f hf) hfit hs1 acc1 []
    rw [StrictText.fractionText, ← List.append_nil ('.' :: f), h2]
    exact hs2

/-- `Parse` of an accepted text, whatever the options: the value the text denotes. -/
theorem parse_strictText (prec : Nat) (rp : RoundPolicy) (t : StrictText)
    (hp : prec ≤ kMaxDecimalDigits) (ht : t.Accepted prec)
    (hrun : (∀ c ∈ t.fractionDigits, c = '0') → t.fractionDigits.length < 256) :
    parse prec rp o t.text = pure (Decimal.fromUnbiased (t.unbiasedValue prec)) := by
  obtain ⟨hfrac, hint, hguard⟩ := ht
  have hfit : t.fractionDigits.length ≤ kMaxDecimalDigits ∨
      (∀ c ∈ t.fractionDigits, c = '0') ∧ t.fractionDigits.length < 256 := by
    rcases hfrac with h | ⟨-, h⟩
    · exact .inl (h.trans hp)
    · exact .inr ⟨h, hrun h⟩
  have hk : t.fractionDigits.length ≤ prec ∨
      t.fractionValue = 0 ∧ kMaxDecimalDigits ≤ t.fractionDigits.length := by
    rcases hfrac with h | ⟨h18, h⟩
    · exact .inl h
    · exact .inr ⟨StrictText.fractionValue_eq_zero h, h18⟩
  exact parse_of_unpackedRead prec rp (parseUnpacked_of_fractionRead (parseLoop_strictText t hint hfit))
    hp t.fractionValue_lt hk hguard

end Decimal64

end Userver
