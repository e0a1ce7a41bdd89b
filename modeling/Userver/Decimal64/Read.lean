import Userver.Decimal64.Scan

/-!
# Reading a decimal without exponent

What `ParseUnpacked` and `Parse` make of `[+-]?digits(.digits)?`, for every set of options.  The
run is cut where the state machine changes phase:

* `parseLoop_signText`: the optional sign, ending in a `SignRead` state;
* `parseLoop_integralDigits`: the integral digits, leading zeros included, ending in an
  `IntegralRead` state, as long as the integral part is below `10^kMaxDecimalDigits`;
* `parseLoop_fractionDigits`: the dot and the fractional digits, ending in a `FractionRead`
  state, as long as they fit in `kMaxDecimalDigits` digits or are all zeros.

`parseUnpacked_of_fractionRead` passes a `FractionRead` state through the checks after the loop,
and `parse_of_unpackedRead` through `Parse`, which builds the value `±(n * 10^Prec + a *
10^(Prec - k))` of integral part `n` and fractional part `a` of `k` digits.
-/

namespace Userver

namespace Decimal64

open DigitString

/-- The parser variables after the optional sign. -/
structure SignRead (neg : Bool) (s : ParseLoop) : Prop where
  state : s.state = .sign ∨ s.state = .beforeFirstDig
  error : s.error = none
  before : s.before = 0
  isNegative : s.isNegative = neg
  after : s.after = 0
  afterDigitCount : s.afterDigitCount = 0
  zerosAfterDec : s.zerosAfterDec = 0
  exponent : s.exponent = 0

/-- The parser variables after the sign and an integral part of value `n`. -/
structure IntegralRead (neg : Bool) (n : Nat) (s : ParseLoop) : Prop where
  state : s.state = .leadingZeros ∨ s.state = .beforeDec
  error : s.error = none
  before : s.before = n
  beforeDigitCount : 1 ≤ s.beforeDigitCount
  isNegative : s.isNegative = neg
  after : s.after = 0
  afterDigitCount : s.afterDigitCount = 0
  zerosAfterDec : s.zerosAfterDec = 0
  exponent : s.exponent = 0

/-- The parser variables at the end of a decimal with fractional part `a` of `k` digits. -/
structure FractionRead (neg : Bool) (n k a : Nat) (s : ParseLoop) : Prop where
  state : s.state = .leadingZeros ∨ s.state = .beforeDec ∨ s.state = .zerosAfterDec ∨
    s.state = .afterDec
  zerosCounted : s.state = .zerosAfterDec → 0 < s.afterDigitCount.toNat
  error : s.error = none
  before : s.before = n
  beforeDigitCount : 1 ≤ s.beforeDigitCount
  isNegative : s.isNegative = neg
  after : s.after = a
  afterDigitCount : s.afterDigitCount.toNat = k
  zerosAfterDec : kMaxDecimalDigits ≤ s.zerosAfterDec → a = 0
  zeroRun : a = 0 → kMaxDecimalDigits ≤ k → kMaxDecimalDigits ≤ s.zerosAfterDec
  zerosAfterDec_le : s.zerosAfterDec ≤ k
  exponent : s.exponent = 0

/-- An optional sign as the parser reads it: none, `+` or `-`. -/
def signText : Option Bool → List Char
  | none => []
  | some false => ['+']
  | some true => ['-']

variable {o : ParseOptions}

/-- The optional sign. -/
theorem parseLoop_signText (sg : Option Bool) (rest : List Char) :
    ∃ s acc, parseLoop o ParseLoop.init [] (signText sg ++ rest) = parseLoop o s acc rest ∧
      SignRead (sg = some true) s := by
  match sg with
  | none => exact ⟨ParseLoop.init, [], rfl, .inl rfl, rfl, rfl, rfl, rfl, rfl, rfl, rfl⟩
  | some false =>
    have hstep := step_sign_plus (o := o) (s := ParseLoop.init) rfl rfl
    refine ⟨step o ParseLoop.init '+', ['+'], ?_, ?_⟩
    · exact parseLoop_cons (by decide) (by rw [hstep]; simp) _ _
    · rw [hstep]
      exact ⟨.inr rfl, rfl, rfl, rfl, rfl, rfl, rfl, rfl⟩
  | some true =>
    have hstep := step_sign_minus (o := o) (s := ParseLoop.init) rfl rfl
    refine ⟨step o ParseLoop.init '-', ['-'], ?_, ?_⟩
    · exact parseLoop_cons (by decide) (by rw [hstep]; simp) _ _
    · rw [hstep]
      exact ⟨.inr rfl, rfl, rfl, rfl, rfl, rfl, rfl, rfl⟩

/-- The significant integral digits, from the state after the first of them. -/
theorem parseLoop_significant {neg : Bool} {c : Char} {cs : List Char} (hcs : AllDigits cs)
    (hlen : cs.length < kMaxDecimalDigits) {s : ParseLoop} (hst : s.state = .beforeDec)
    (he : s.error = none) (hb : s.before = val c) (hbd : s.beforeDigitCount = 1)
    (hneg : s.isNegative = neg) (haf : s.after = 0) (hcnt : s.afterDigitCount = 0)
    (hz : s.zerosAfterDec = 0) (hex : s.exponent = 0) (acc rest : List Char) :
    ∃ s' acc', parseLoop o s acc (cs ++ rest) = parseLoop o s' acc' rest ∧
      IntegralRead neg (Nat.ofDigitChars 10 (c :: cs) 0) s' := by
  rw [parseLoop_beforeDec cs hcs s (val c) acc rest hst he hb (by rw [hbd]; omega)]
  refine ⟨_, _, rfl, ⟨.inr hst, he, ?_, by simp only; omega, hneg, haf, hcnt, hz, hex⟩⟩
  rw [ofDigitChars_cons_val, Nat.mul_zero, Nat.zero_add]

/-- The integral digits, leading zeros included, from the state after the sign. -/
theorem parseLoop_integralDigits {neg : Bool} {ip : List Char} (hne : ip ≠ [])
    (hd : AllDigits ip) (hv : Nat.ofDigitChars 10 ip 0 < 10 ^ kMaxDecimalDigits) {s : ParseLoop}
    (hs : SignRead neg s) (acc rest : List Char) :
    ∃ s' acc', parseLoop o s acc (ip ++ rest) = parseLoop o s' acc' rest ∧
      IntegralRead neg (Nat.ofDigitChars 10 ip 0) s' := by
  obtain ⟨z, r, rfl, hr⟩ := eq_replicate_zero_append ip
  obtain ⟨-, hrd⟩ := allDigits_append.1 hd
  rw [ofDigitChars_replicate_zero_append] at hv ⊢
  -- the significant digits fit: a digit string from a non-zero digit has its length's weight
  have hsig : ∀ c cs, r = c :: cs → cs.length < kMaxDecimalDigits := by
    rintro c cs rfl
    have h := pow_le_ofDigitChars_cons cs (allDigits_cons.1 hrd).1 (hr c cs rfl)
    exact (Nat.pow_lt_pow_iff_right (by decide)).1 (lt_of_le_of_lt h hv)
  cases z with
  | zero =>
    -- no leading zero: the first digit starts the significant part
    obtain ⟨c, cs, rfl⟩ := List.exists_cons_of_ne_nil (by simpa using hne)
    obtain ⟨hc, hcs⟩ := allDigits_cons.1 hrd
    have hstep := step_nonzero_of_start (o := o) hs.state hs.error hc (hr c cs rfl)
    rw [List.replicate_zero, List.nil_append, List.cons_append,
      parseLoop_cons (ne_nul_of_isDigit hc) (by rw [hstep]; simp)]
    exact parseLoop_significant hcs (hsig c cs rfl) (by rw [hstep]) (by rw [hstep]; exact hs.error)
      (by rw [hstep]) (by rw [hstep]) (by rw [hstep]; exact hs.isNegative)
      (by rw [hstep]; exact hs.after) (by rw [hstep]; exact hs.afterDigitCount)
      (by rw [hstep]; exact hs.zerosAfterDec) (by rw [hstep]; exact hs.exponent) _ _
  | succ z =>
    -- a first zero, then the other leading zeros
    have hstep := step_zero_of_start (o := o) hs.state hs.error
    have hinput : List.replicate (z + 1) '0' ++ r ++ rest = '0' :: (List.replicate z '0' ++ (r ++ rest)) := by
      simp [List.replicate_succ]
    rw [hinput, parseLoop_cons (by decide) (by rw [hstep]; simp),
      parseLoop_leadingZeros z _ _ _ (by rw [hstep]) (by rw [hstep]; exact hs.error)]
    generalize hs1 : ({ step o s '0' with position := (step o s '0').position + z } : ParseLoop) = s1
    have h1 : s1.state = .leadingZeros ∧ s1.error = none ∧ s1.before = 0 ∧
        s1.beforeDigitCount = 1 ∧ s1.isNegative = neg ∧ s1.after = 0 ∧ s1.afterDigitCount = 0 ∧
        s1.zerosAfterDec = 0 ∧ s1.exponent = 0 := by
      subst hs1
      simp [hstep, hs.error, hs.before, hs.isNegative, hs.after, hs.afterDigitCount,
        hs.zerosAfterDec, hs.exponent]
    obtain ⟨hst1, he1, hb1, hbd1, hneg1, haf1, hcnt1, hz1, hex1⟩ := h1
    cases r with
    | nil =>
      -- only zeros: the value is zero
      exact ⟨_, _, rfl, ⟨.inl hst1, he1, by simpa using hb1, by omega, hneg1, haf1, hcnt1, hz1,
        hex1⟩⟩
    | cons c cs =>
      obtain ⟨hc, hcs⟩ := allDigits_cons.1 hrd
      have hstep' := step_leadingZeros_nonzero (o := o) hst1 he1 hc (hr c cs rfl)
      rw [List.cons_append, parseLoop_cons (ne_nul_of_isDigit hc) (by rw [hstep']; simp)]
      exact parseLoop_significant hcs (hsig c cs rfl) (by rw [hstep']) (by rw [hstep']; exact he1)
        (by rw [hstep']) (by rw [hstep']; exact hbd1) (by rw [hstep']; exact hneg1)
        (by rw [hstep']; exact haf1) (by rw [hstep']; exact hcnt1) (by rw [hstep']; exact hz1)
        (by rw [hstep']; exact hex1) _ _

/-- Without fractional digits the integral state is already the final one. -/
theorem IntegralRead.fractionRead {neg : Bool} {n : Nat} {s : ParseLoop}
    (h : IntegralRead neg n s) : FractionRead neg n 0 0 s where
  state := h.state.elim .inl (.inr ∘ .inl)
  zerosCounted hz := by rcases h.state with h' | h' <;> simp [h'] at hz
  error := h.error
  before := h.before
  beforeDigitCount := h.beforeDigitCount
  isNegative := h.isNegative
  after := h.after
  afterDigitCount := by rw [h.afterDigitCount]; rfl
  zerosAfterDec _ := rfl
  zeroRun _ hk := absurd hk (by decide)
  zerosAfterDec_le := by rw [h.zerosAfterDec]
  exponent := h.exponent

/-- The dot and the fractional digits, from the state after the integral part: at most
`kMaxDecimalDigits` of them, or a run of zeros short enough for the `uint8_t` counter. -/
theorem parseLoop_fractionDigits {neg : Bool} {n : Nat} {f : List Char} (hne : f ≠ [])
    (hd : AllDigits f)
    (hfit : f.length ≤ kMaxDecimalDigits ∨ (∀ c ∈ f, c = '0') ∧ f.length < 256) {s : ParseLoop}
    (hs : IntegralRead neg n s) (acc rest : List Char) :
    ∃ s' acc', parseLoop o s acc ('.' :: f ++ rest) = parseLoop o s' acc' rest ∧
      FractionRead neg n f.length (Nat.ofDigitChars 10 f 0) s' := by
  have hdot := step_dot_of_integral (o := o) hs.state hs.error
  have hcnt0 : (step o s '.').afterDigitCount.toNat = 0 := by
    rw [hdot, hs.afterDigitCount]; rfl
  rw [List.cons_append, parseLoop_cons (by decide) (by rw [hdot]; simp)]
  obtain ⟨z, r, rfl, hr⟩ := eq_replicate_zero_append f
  obtain ⟨-, hrd⟩ := allDigits_append.1 hd
  rw [ofDigitChars_replicate_zero_append]
  cases r with
  | nil =>
    -- all the fractional digits are zeros: they are only counted
    simp only [List.append_nil, List.length_replicate] at hne hfit ⊢
    have hz0 : 0 < z := by
      rcases z with _ | z
      · exact absurd rfl hne
      · omega
    have hz : z < 256 := by unfold kMaxDecimalDigits at hfit; omega
    rw [parseLoop_zeros z _ _ _ (by rw [hdot]) (by rw [hdot]; exact hs.error) (by omega)]
    have hcount : (UInt8.ofNat ((step o s '.').afterDigitCount.toNat + z)).toNat = z := by
      rw [hcnt0, UInt8.toNat_ofNat']; omega
    refine ⟨_, _, rfl, ?_⟩
    exact
      { state := by rw [hdot]; exact .inr (.inr (.inl rfl))
        zerosCounted := fun _ => by simp only [hcount]; exact hz0
        error := by rw [hdot]; exact hs.error
        before := by rw [hdot]; exact hs.before
        beforeDigitCount := by rw [hdot]; exact hs.beforeDigitCount
        isNegative := by rw [hdot]; exact hs.isNegative
        after := by simp [hdot, hs.after]
        afterDigitCount := hcount
        zerosAfterDec := fun _ => rfl
        zeroRun := fun _ h => by simpa [hdot, hs.zerosAfterDec] using h
        zerosAfterDec_le := by simp [hdot, hs.zerosAfterDec]
        exponent := by rw [hdot]; exact hs.exponent }
  | cons c cs =>
    -- a run of zeros, then the digits from the first non-zero one
    obtain ⟨hc, hcs⟩ := allDigits_cons.1 hrd
    have hc0 := hr c cs rfl
    have hlen : z + (cs.length + 1) ≤ kMaxDecimalDigits := by
      rcases hfit with h | ⟨h, -⟩
      · simpa using h
      · exact absurd (h c (by simp)) hc0
    have hrun := parseLoop_zerosThenDigits (o := o) z c cs hc hc0 hcs (step o s '.') 0
      ('.' :: acc) rest (by rw [hdot]) (by rw [hdot]; exact hs.error)
      (by rw [hdot, hs.after]; rfl) (by rw [hcnt0]; omega)
    rw [hrun]
    have hcount : (UInt8.ofNat ((step o s '.').afterDigitCount.toNat + z + 1 +
        cs.length)).toNat = (List.replicate z '0' ++ c :: cs).length := by
      rw [hcnt0, UInt8.toNat_ofNat']; unfold kMaxDecimalDigits at hlen; simp; omega
    refine ⟨_, _, rfl, ?_⟩
    exact
      { state := .inr (.inr (.inr rfl))
        zerosCounted := fun h => absurd h (by simp)
        error := by rw [hdot]; exact hs.error
        before := by rw [hdot]; exact hs.before
        beforeDigitCount := by rw [hdot]; exact hs.beforeDigitCount
        isNegative := by rw [hdot]; exact hs.isNegative
        after := by simp only [Nat.mul_zero, Nat.zero_add]; rw [ofDigitChars_cons_val]; simp
        afterDigitCount := hcount
        zerosAfterDec := fun h => by
          simp only [hdot, hs.zerosAfterDec] at h; unfold kMaxDecimalDigits at h hlen; omega
        zeroRun := fun h => absurd h (by
          have := pow_le_ofDigitChars_cons cs hc hc0
          have : 0 < 10 ^ cs.length := by positivity
          omega)
        zerosAfterDec_le := by simp [hdot, hs.zerosAfterDec]
        exponent := by rw [hdot]; exact hs.exponent }

/-- What `ParseUnpacked` returns on a decimal without an exponent: no error, the integral part
and the sign as written, and the fractional part with its digit count, or nothing when the
fraction was a run of at least `kMaxDecimalDigits` zeros. -/
structure UnpackedRead (neg : Bool) (n k a : Nat) (r : ParseUnpackedResult) : Prop where
  error : r.error = none
  before : r.before = n
  isNegative : r.isNegative = neg
  exponent : r.exponent = 0
  fraction : r.after = a ∧ r.decimalDigits.toNat = k ∧ (a = 0 → k < kMaxDecimalDigits) ∨
    a = 0 ∧ kMaxDecimalDigits ≤ k ∧ r.after = 0 ∧ r.decimalDigits = 0

/-- The checks after the loop keep what the loop read. -/
theorem parseUnpacked_of_fractionRead {input : List Char} {neg : Bool} {n k a : Nat}
    (hs : FractionRead neg n k a (parseLoop o ParseLoop.init [] input).1) :
    UnpackedRead neg n k a (parseUnpacked o input) := by
  unfold parseUnpacked
  generalize parseLoop o ParseLoop.init [] input = res at hs ⊢
  obtain ⟨s, q⟩ := res
  have hdot : s.state = .zerosAfterDec → s.afterDigitCount ≠ 0 := fun h hc => by
    have := hs.zerosCounted h
    rw [hc] at this
    exact absurd this (by decide)
  simp only
  rw [finishParse_of_clean q hs.error hs.state hs.beforeDigitCount hdot]
  split
  · -- a fraction of at least `kMaxDecimalDigits` zeros is forgotten
    exact ⟨hs.error, hs.before, hs.isNegative, hs.exponent,
      .inr ⟨hs.zerosAfterDec ‹_›, le_trans ‹_› hs.zerosAfterDec_le, rfl, rfl⟩⟩
  · rename_i hz
    refine ⟨hs.error, hs.before, hs.isNegative, hs.exponent,
      .inl ⟨hs.after, hs.afterDigitCount, fun ha => ?_⟩⟩
    by_contra hk
    exact hz (hs.zeroRun ha (Nat.not_lt.1 hk))

/-- The value of a decimal without exponent fits when its integral part passes the overflow guard of
`Parse`. -/
theorem unpacked_value_le {prec n k a : Nat} (hk : k ≤ prec) (ha : a < 10 ^ k)
    (hn : (n : Int) < kMaxInt64.tdiv (10 ^ prec)) :
    (n : Int) * 10 ^ prec + a * 10 ^ (prec - k) ≤ kMaxInt64 := by
  have hpos : (0 : Int) < 10 ^ prec := by positivity
  have hfrac : (a : Int) * 10 ^ (prec - k) < 10 ^ prec := by
    have : a * 10 ^ (prec - k) < 10 ^ k * 10 ^ (prec - k) :=
      Nat.mul_lt_mul_of_pos_right ha (by positivity)
    rw [← Nat.pow_add, Nat.add_sub_cancel' hk] at this
    exact_mod_cast this
  rw [Int.tdiv_eq_ediv_of_nonneg (by unfold kMaxInt64; omega)] at hn
  calc (n : Int) * 10 ^ prec + a * 10 ^ (prec - k)
      ≤ (n + 1) * 10 ^ prec := by linarith
    _ ≤ kMaxInt64 / 10 ^ prec * 10 ^ prec := Int.mul_le_mul_of_nonneg_right (by omega) hpos.le
    _ ≤ kMaxInt64 := Int.ediv_mul_le _ hpos.ne'

theorem fromUnpackedPrec_signed (prec : Nat) (rp : RoundPolicy) (neg : Bool) {n k a : Nat}
    (hp : prec ≤ kMaxDecimalDigits) (hk : k ≤ prec) (ha : a < 10 ^ k)
    (hn : (n : Int) < kMaxInt64.tdiv (10 ^ prec)) :
    fromUnpackedPrec prec rp (if neg then -(n : Int) else n) (if neg then -(a : Int) else a) k =
      pure (Decimal.fromUnbiased (if neg then -((n : Int) * 10 ^ prec + a * 10 ^ (prec - k))
        else (n : Int) * 10 ^ prec + a * 10 ^ (prec - k))) := by
  have hle := unpacked_value_le hk ha hn
  have hfrac : (0 : Int) ≤ a * 10 ^ (prec - k) := by positivity
  have hint : (0 : Int) ≤ n * 10 ^ prec := by positivity
  unfold kMaxInt64 at hle
  cases neg with
  | false =>
    simp only [Bool.false_eq_true, if_false]
    exact fromUnpackedPrec_direct hk hp (by unfold InInt64 kMinInt64 kMaxInt64; omega)
      (by unfold InInt64 kMinInt64 kMaxInt64; omega)
  | true =>
    simp only [if_true]
    rw [fromUnpackedPrec_direct hk hp (by unfold InInt64 kMinInt64 kMaxInt64; rw [Int.neg_mul]; omega)
      (by unfold InInt64 kMinInt64 kMaxInt64; rw [Int.neg_mul, Int.neg_mul]; omega)]
    congr 2
    ring

/-- `Parse` after a `ParseUnpacked` without exponent: the value the text denotes, when the
fractional part fits in `Prec` digits or is an all-zero run the parser forgets. -/
theorem parse_of_unpackedRead (prec : Nat) (rp : RoundPolicy) {input : List Char} {neg : Bool}
    {n k a : Nat} (hr : UnpackedRead neg n k a (parseUnpacked o input))
    (hp : prec ≤ kMaxDecimalDigits) (ha : a < 10 ^ k)
    (hk : k ≤ prec ∨ a = 0 ∧ kMaxDecimalDigits ≤ k) (hn : (n : Int) < kMaxInt64.tdiv (10 ^ prec)) :
    parse prec rp o input =
      pure (Decimal.fromUnbiased (if neg then -((n : Int) * 10 ^ prec + a * 10 ^ (prec - k))
        else (n : Int) * 10 ^ prec + a * 10 ^ (prec - k))) := by
  obtain ⟨herr, hb, hneg, hexp, hfrac⟩ := hr
  -- without the reset, the digit count is within the precision
  have hkp : (parseUnpacked o input).after = a ∧
      (parseUnpacked o input).decimalDigits.toNat = k → k ≤ prec := by
    rintro ⟨-, hd⟩
    rcases hk with hk | ⟨ha0, hk18⟩
    · exact hk
    · rcases hfrac with ⟨-, -, h⟩ | ⟨-, -, -, h⟩
      · exact absurd hk18 (Nat.not_le.2 (h ha0))
      · rw [h] at hd
        unfold kMaxDecimalDigits at hk18
        simp at hd
        omega
  have hdd : (parseUnpacked o input).decimalDigits.toNat ≤ prec := by
    rcases hfrac with ⟨haf, hd, -⟩ | ⟨_, _, _, h⟩
    · rw [hd]; exact hkp ⟨haf, hd⟩
    · rw [h]; exact Nat.zero_le _
  rw [parse_of_exponent_eq_zero herr (.inl hdd) (by rw [hb]; exact hn) hexp]
  simp only [hb, hneg]
  have h0 := fromUnpackedPrec_signed prec rp neg hp (Nat.zero_le _) (a := 0) (by decide) hn
  rcases hfrac with ⟨haf, hd, -⟩ | ⟨rfl, -, haf, hd⟩
  · by_cases ha0 : a = 0
    · -- an all-zero fraction is read as no fraction
      subst ha0
      simpa [haf] using h0
    · simp only [haf, hd, Nat.cast_eq_zero, ha0, if_false]
      exact fromUnpackedPrec_signed prec rp neg hp (hkp ⟨haf, hd⟩) ha hn
  · simpa [haf, hd] using h0

end Decimal64

end Userver
