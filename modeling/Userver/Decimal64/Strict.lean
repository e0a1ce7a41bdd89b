import Userver.Decimal64.Grammar

/-!
# What the strict constructor accepts

With `ParseOptions::kNone` every branch of `ParseUnpacked` that leaves the grammar
`[+-]?[0-9]+(\.[0-9]+)?` sets an error or ends the number, and an ended number is then rejected
as trailing junk.  The `step_kNone_*` lemmas say, for each state the grammar passes through,
which characters keep the error unset.  From them, `Phase` describes what the loop has read so
far in every error-free run (`parseLoop_phase`), and `phase_strictText` turns the final phase
into a `StrictText` whose reading is the run's.

`fromString_eq_ok_iff` is then the exact description of the strict constructor: on a text
without `'\0'` and without a run of 256 zeros after the dot, it succeeds with `d` iff the text is
of the grammar, is `StrictText.Accepted`, and `d` is the value it denotes.
-/

namespace Userver

namespace Decimal64

open DigitString

variable {s : ParseLoop} {c : Char}

theorem not_digit_range (hc : c.isDigit = false) : ¬('1' ≤ c ∧ c ≤ '9') := by
  rintro ⟨h1, h9⟩
  have h1 : 49 ≤ c.toNat := Char.le_def.1 h1
  have h9 : c.toNat ≤ 57 := Char.le_def.1 h9
  have : c.isDigit = true := isDigit_iff.2 ⟨by omega, by omega⟩
  simp_all

/-! ### What a step of the strict parser can read -/

theorem step_kNone_sign (hst : s.state = .sign) (he : s.error = none)
    (hok : (step .kNone s c).error = none) : c = '-' ∨ c = '+' ∨ c.isDigit = true := by
  by_contra h
  simp only [not_or, Bool.not_eq_true] at h
  obtain ⟨hm, hp, hd⟩ := h
  have h0 : c ≠ '0' := by rintro rfl; simp at hd
  simp [step, hst, he, hm, hp, h0, not_digit_range hd, ParseOptions.kNone] at hok
  split_ifs at hok

theorem step_kNone_beforeFirstDig (hst : s.state = .beforeFirstDig) (he : s.error = none)
    (hok : (step .kNone s c).error = none) : c.isDigit = true := by
  by_contra hd
  simp only [Bool.not_eq_true] at hd
  have h0 : c ≠ '0' := by rintro rfl; simp at hd
  simp [step, hst, he, h0, not_digit_range hd, ParseOptions.kNone] at hok
  split_ifs at hok

theorem step_kNone_leadingZeros (hst : s.state = .leadingZeros) (he : s.error = none)
    (hok : (step .kNone s c).error = none) (hend : (step .kNone s c).state ≠ .«end») :
    c.isDigit = true ∨ c = '.' := by
  by_contra h
  simp only [not_or, Bool.not_eq_true] at h
  obtain ⟨hd, hdot⟩ := h
  have h0 : c ≠ '0' := by rintro rfl; simp at hd
  simp [step, hst, he, h0, hdot, not_digit_range hd, stateToExpSign, ParseOptions.kNone] at hok hend
  split_ifs at hok hend
  simp_all

theorem step_kNone_beforeDec (hst : s.state = .beforeDec) (he : s.error = none)
    (hok : (step .kNone s c).error = none) (hend : (step .kNone s c).state ≠ .«end») :
    c.isDigit = true ∧ s.beforeDigitCount < kMaxDecimalDigits ∨ c = '.' := by
  by_contra h
  simp only [not_or, not_and] at h
  obtain ⟨hd, hdot⟩ := h
  by_cases hc : c.isDigit = true
  · simp [step, hst, he, hc, hd hc] at hok
  · simp [step, hst, he, hc, hdot, stateToExpSign, ParseOptions.kNone] at hok hend
    split_ifs at hok hend
    simp_all

theorem step_kNone_zerosAfterDec (hst : s.state = .zerosAfterDec) (he : s.error = none)
    (hok : (step .kNone s c).error = none) (hend : (step .kNone s c).state ≠ .«end») :
    c = '0' ∨ c.isDigit = true ∧ s.afterDigitCount.toNat < kMaxDecimalDigits := by
  by_contra h
  simp only [not_or, not_and] at h
  obtain ⟨h0, hd⟩ := h
  by_cases hc : c.isDigit = true
  · simp [step, hst, he, h0, afterDecChar, hc, hd hc, ParseOptions.kNone] at hok
    split_ifs at hok
  · simp [step, hst, he, h0, afterDecChar, hc, stateToExpSign, ParseOptions.kNone] at hok hend
    split_ifs at hok hend
    simp_all

theorem step_kNone_afterDec (hst : s.state = .afterDec) (he : s.error = none)
    (hok : (step .kNone s c).error = none) (hend : (step .kNone s c).state ≠ .«end») :
    c.isDigit = true ∧ s.afterDigitCount.toNat < kMaxDecimalDigits := by
  by_contra h
  simp only [not_and] at h
  by_cases hc : c.isDigit = true
  · simp [step, hst, he, afterDecChar, hc, h hc, ParseOptions.kNone] at hok
    split_ifs at hok
  · simp [step, hst, he, afterDecChar, hc, stateToExpSign, ParseOptions.kNone] at hok hend
    split_ifs at hok hend
    simp_all

/-! ### What the strict parser has read -/

/-- The integral part `ip` after the sign `sg`, as the parser variables hold it. -/
structure IntegralPart (sg : Option Bool) (ip : List Char) (s : ParseLoop) : Prop where
  error : s.error = none
  isNegative : s.isNegative = decide (sg = some true)
  ne : ip ≠ []
  digits : AllDigits ip
  before : s.before = Nat.ofDigitChars 10 ip 0
  beforeDigitCount_pos : 1 ≤ s.beforeDigitCount
  bound : Nat.ofDigitChars 10 ip 0 < 10 ^ s.beforeDigitCount
  beforeDigitCount_le : s.beforeDigitCount ≤ kMaxDecimalDigits
  exponent : s.exponent = 0

/-- A step that leaves the integral variables alone keeps the integral part. -/
theorem IntegralPart.frame {sg : Option Bool} {ip : List Char} {s s' : ParseLoop}
    (h : IntegralPart sg ip s) (he : s'.error = none) (hneg : s'.isNegative = s.isNegative)
    (hb : s'.before = s.before) (hbd : s'.beforeDigitCount = s.beforeDigitCount)
    (hex : s'.exponent = s.exponent) : IntegralPart sg ip s' :=
  ⟨he, hneg ▸ h.isNegative, h.ne, h.digits, hb ▸ h.before, hbd ▸ h.beforeDigitCount_pos,
    hbd ▸ h.bound, hbd ▸ h.beforeDigitCount_le, hex ▸ h.exponent⟩

/-- What the loop has read, by phase, while no error is set: nothing; a sign; the integral
part; a run of zeros after the dot; the fractional digits from the first non-zero one.  The
`uint8_t` digit counter is `after_digit_count`, modulo 256. -/
inductive Phase : ParseLoop → List Char → Prop where
  | start {s : ParseLoop} : s.state = .sign → s.error = none → s.isNegative = false →
      s.before = 0 → s.beforeDigitCount = 0 → s.after = 0 → s.afterDigitCount = 0 →
      s.zerosAfterDec = 0 → s.exponent = 0 → Phase s []
  | signed {s : ParseLoop} (neg : Bool) : s.state = .beforeFirstDig → s.error = none →
      s.isNegative = neg → s.before = 0 → s.beforeDigitCount = 0 → s.after = 0 →
      s.afterDigitCount = 0 → s.zerosAfterDec = 0 → s.exponent = 0 →
      Phase s (signText (some neg))
  | integral {s : ParseLoop} (sg : Option Bool) (ip : List Char) : IntegralPart sg ip s →
      (s.state = .leadingZeros ∧ Nat.ofDigitChars 10 ip 0 = 0 ∨ s.state = .beforeDec) →
      s.after = 0 → s.afterDigitCount = 0 → s.zerosAfterDec = 0 → Phase s (signText sg ++ ip)
  | zeros {s : ParseLoop} (sg : Option Bool) (ip : List Char) (z : Nat) : IntegralPart sg ip s →
      s.state = .zerosAfterDec → s.after = 0 → s.afterDigitCount.toNat = z % 256 →
      s.zerosAfterDec = z → Phase s (signText sg ++ ip ++ '.' :: List.replicate z '0')
  | digits {s : ParseLoop} (sg : Option Bool) (ip : List Char) (z : Nat) (c : Char)
      (cs : List Char) : IntegralPart sg ip s → s.state = .afterDec → c.isDigit = true →
      c ≠ '0' → AllDigits cs → s.after = Nat.ofDigitChars 10 (c :: cs) 0 →
      s.afterDigitCount.toNat = z % 256 + 1 + cs.length →
      z % 256 + 1 + cs.length ≤ kMaxDecimalDigits → s.zerosAfterDec = z →
      Phase s (signText sg ++ ip ++ '.' :: (List.replicate z '0' ++ c :: cs))

theorem phase_init : Phase ParseLoop.init [] :=
  .start rfl rfl rfl rfl rfl rfl rfl rfl rfl

/-- The first integral digit, after the sign or without one. -/
theorem phase_first_digit (sg : Option Bool) (hst : s.state = .sign ∨ s.state = .beforeFirstDig)
    (he : s.error = none) (hneg : s.isNegative = decide (sg = some true)) (hb : s.before = 0)
    (haf : s.after = 0) (hcnt : s.afterDigitCount = 0) (hz : s.zerosAfterDec = 0)
    (hex : s.exponent = 0) (hd : c.isDigit = true) :
    Phase (step .kNone s c) (signText sg ++ [c]) := by
  have hv : val c < 10 := val_lt_ten hd
  by_cases h0 : c = '0'
  · subst h0
    rw [step_zero_of_start hst he]
    exact .integral sg ['0'] ⟨he, hneg, by simp, allDigits_cons.2 ⟨rfl, allDigits_nil⟩,
      by simp [hb, ofDigitChars_cons_val, val], le_refl _, by simp [ofDigitChars_cons_val, val],
      by simp [kMaxDecimalDigits], hex⟩
      (.inl ⟨rfl, by simp [ofDigitChars_cons_val, val]⟩) haf hcnt hz
  · rw [step_nonzero_of_start hst he hd h0]
    exact .integral sg [c] ⟨he, hneg, by simp, allDigits_cons.2 ⟨hd, allDigits_nil⟩,
      by simp [ofDigitChars_cons_val], le_refl _, by simpa [ofDigitChars_cons_val] using hv,
      by simp [kMaxDecimalDigits], hex⟩ (.inr rfl) haf hcnt hz

/-- A step from the start: a sign or the first digit. -/
theorem Phase.step_start (hst : s.state = .sign) (he : s.error = none) (hneg : s.isNegative = false)
    (hb : s.before = 0) (hbd : s.beforeDigitCount = 0) (haf : s.after = 0)
    (hcnt : s.afterDigitCount = 0) (hz : s.zerosAfterDec = 0) (hex : s.exponent = 0)
    (hok : (step .kNone s c).error = none) : Phase (step .kNone s c) ([] ++ [c]) := by
  rcases step_kNone_sign hst he hok with rfl | rfl | hd
  · rw [step_sign_minus hst he]
    exact .signed true rfl he rfl hb hbd haf hcnt hz hex
  · rw [step_sign_plus hst he]
    exact .signed false rfl he hneg hb hbd haf hcnt hz hex
  · exact phase_first_digit none (.inl hst) he hneg hb haf hcnt hz hex hd

/-- A step after the sign: the first digit. -/
theorem Phase.step_signed (neg : Bool) (hst : s.state = .beforeFirstDig) (he : s.error = none)
    (hneg : s.isNegative = neg) (hb : s.before = 0) (haf : s.after = 0)
    (hcnt : s.afterDigitCount = 0) (hz : s.zerosAfterDec = 0) (hex : s.exponent = 0)
    (hok : (step .kNone s c).error = none) :
    Phase (step .kNone s c) (signText (some neg) ++ [c]) := by
  have hneg' : s.isNegative = decide (some neg = some true) := by rw [hneg]; cases neg <;> rfl
  exact phase_first_digit (some neg) (.inr hst) he hneg' hb haf hcnt hz hex
    (step_kNone_beforeFirstDig hst he hok)

/-- A step in the integral part: another digit, or the dot. -/
theorem Phase.step_integral {sg : Option Bool} {ip : List Char} (hip : IntegralPart sg ip s)
    (hst : s.state = .leadingZeros ∧ Nat.ofDigitChars 10 ip 0 = 0 ∨ s.state = .beforeDec)
    (haf : s.after = 0) (hcnt : s.afterDigitCount = 0) (hz : s.zerosAfterDec = 0)
    (hok : (step .kNone s c).error = none) (hend : (step .kNone s c).state ≠ .«end») :
    Phase (step .kNone s c) (signText sg ++ ip ++ [c]) := by
  have he := hip.error
  -- the dot ends the integral part in both states
  have hdot : c = '.' → Phase (step .kNone s c) (signText sg ++ ip ++ [c]) := by
    rintro rfl
    have hstep := step_dot_of_integral (o := .kNone) (hst.imp And.left id) he
    rw [hstep]
    exact .zeros sg ip 0 (hip.frame he rfl rfl rfl rfl) rfl haf (by simp [hcnt]) hz
  rcases hst with ⟨hlz, hv0⟩ | hbd
  · rcases step_kNone_leadingZeros hlz he hok hend with hd | hc
    · have hval : Nat.ofDigitChars 10 (ip ++ [c]) 0 = val c := by
        rw [ofDigitChars_append_digit, hv0, Nat.mul_zero, Nat.zero_add]
      have hdigits : AllDigits (ip ++ [c]) := allDigits_append.2 ⟨hip.digits, allDigits_cons.2 ⟨hd, allDigits_nil⟩⟩
      rw [List.append_assoc]
      by_cases h0 : c = '0'
      · -- one more leading zero
        subst h0
        rw [step_leadingZeros_zero hlz he]
        exact .integral sg (ip ++ ['0']) ⟨he, hip.isNegative, by simp, hdigits,
          by simp [hval, hip.before, hv0, val], hip.beforeDigitCount_pos,
          by simp [hval, val], hip.beforeDigitCount_le, hip.exponent⟩
          (.inl ⟨hlz, by simp [hval, val]⟩) haf hcnt hz
      · -- the first significant digit
        have hbound : val c < 10 ^ s.beforeDigitCount :=
          lt_of_lt_of_le (val_lt_ten hd)
            (Nat.le_self_pow (Nat.pos_iff_ne_zero.1 hip.beforeDigitCount_pos) 10)
        rw [step_leadingZeros_nonzero hlz he hd h0]
        exact .integral sg (ip ++ [c]) ⟨he, hip.isNegative, by simp, hdigits, by simp [hval],
          hip.beforeDigitCount_pos, by simpa [hval] using hbound, hip.beforeDigitCount_le,
          hip.exponent⟩ (.inr rfl) haf hcnt hz
    · exact hdot hc
  · rcases step_kNone_beforeDec hbd he hok hend with ⟨hd, hlt⟩ | hc
    · rw [List.append_assoc, step_beforeDec_digit hbd he hd hlt]
      exact .integral sg (ip ++ [c]) ⟨he, hip.isNegative, by simp,
        allDigits_append.2 ⟨hip.digits, allDigits_cons.2 ⟨hd, allDigits_nil⟩⟩,
        by simp [ofDigitChars_append_digit, hip.before], by simp,
        by simpa [ofDigitChars_append_digit] using append_digit_lt hip.bound (val_lt_ten hd),
        by simp only; omega, hip.exponent⟩ (.inr hbd) haf hcnt hz
    · exact hdot hc

/-- A step in a run of zeros after the dot: one more zero, or the first non-zero digit. -/
theorem Phase.step_zeros {sg : Option Bool} {ip : List Char} {z : Nat} (hip : IntegralPart sg ip s)
    (hst : s.state = .zerosAfterDec) (haf : s.after = 0) (hcnt : s.afterDigitCount.toNat = z % 256)
    (hz : s.zerosAfterDec = z) (hok : (step .kNone s c).error = none)
    (hend : (step .kNone s c).state ≠ .«end») :
    Phase (step .kNone s c) (signText sg ++ ip ++ '.' :: List.replicate z '0' ++ [c]) := by
  have he := hip.error
  by_cases h0 : c = '0'
  · -- the counter is a `uint8_t`: it wraps where `zeros_after_dec` does not
    subst h0
    have htext : signText sg ++ ip ++ '.' :: List.replicate z '0' ++ ['0'] =
        signText sg ++ ip ++ '.' :: List.replicate (z + 1) '0' := by
      simp [List.replicate_succ']
    rw [htext, step_zerosAfterDec_zero hst he]
    exact .zeros sg ip (z + 1) (hip.frame he rfl rfl rfl rfl) hst haf
      (by simp only [UInt8.toNat_add, UInt8.toNat_one, hcnt]; omega) (by simp [hz])
  · obtain ⟨hd, hlt⟩ := (step_kNone_zerosAfterDec hst he hok hend).resolve_left h0
    have htext : signText sg ++ ip ++ '.' :: List.replicate z '0' ++ [c] =
        signText sg ++ ip ++ '.' :: (List.replicate z '0' ++ c :: []) := by
      simp
    rw [htext, step_fraction_digit (.inl hst) he hd (fun _ => h0) hlt]
    unfold kMaxDecimalDigits at hlt
    exact .digits sg ip z c [] (hip.frame he rfl rfl rfl rfl) rfl hd h0 allDigits_nil
      (by simp [haf, ofDigitChars_cons_val]) (by rw [uint8_toNat_add_one (by omega), hcnt]; rfl)
      (by unfold kMaxDecimalDigits; simp only [List.length_nil]; omega) hz

/-- A step in the fractional digits: another digit, while fewer than `kMaxDecimalDigits` are
counted. -/
theorem Phase.step_digits {sg : Option Bool} {ip : List Char} {z : Nat} {c' : Char}
    {cs : List Char} (hip : IntegralPart sg ip s) (hst : s.state = .afterDec)
    (hc' : c'.isDigit = true) (hc0 : c' ≠ '0') (hcs : AllDigits cs)
    (haf : s.after = Nat.ofDigitChars 10 (c' :: cs) 0)
    (hcnt : s.afterDigitCount.toNat = z % 256 + 1 + cs.length) (hz : s.zerosAfterDec = z)
    (hok : (step .kNone s c).error = none) (hend : (step .kNone s c).state ≠ .«end») :
    Phase (step .kNone s c)
      (signText sg ++ ip ++ '.' :: (List.replicate z '0' ++ c' :: cs) ++ [c]) := by
  have he := hip.error
  obtain ⟨hd, hlt⟩ := step_kNone_afterDec hst he hok hend
  have htext : signText sg ++ ip ++ '.' :: (List.replicate z '0' ++ c' :: cs) ++ [c] =
      signText sg ++ ip ++ '.' :: (List.replicate z '0' ++ c' :: (cs ++ [c])) := by
    simp
  rw [htext, step_fraction_digit (.inr hst) he hd (by simp [hst]) hlt]
  unfold kMaxDecimalDigits at hlt
  exact .digits sg ip z c' (cs ++ [c]) (hip.frame he rfl rfl rfl rfl) rfl hc' hc0
    (allDigits_append.2 ⟨hcs, allDigits_cons.2 ⟨hd, allDigits_nil⟩⟩)
    (by simp only [haf]
        rw [show c' :: (cs ++ [c]) = (c' :: cs) ++ [c] from rfl, ofDigitChars_append_digit]
        push_cast; ring)
    (by rw [uint8_toNat_add_one (by omega), hcnt]; simp; omega)
    (by unfold kMaxDecimalDigits; simp only [List.length_append, List.length_singleton]; omega) hz

/-- **Step lemma.**  A step of the strict parser that sets no error and does not end the number
extends what has been read by one character. -/
theorem Phase.step {w : List Char} (h : Phase s w) (hok : (step .kNone s c).error = none)
    (hend : (step .kNone s c).state ≠ .«end») : Phase (step .kNone s c) (w ++ [c]) := by
  cases h with
  | start hst he hneg hb hbd haf hcnt hz hex =>
    exact Phase.step_start hst he hneg hb hbd haf hcnt hz hex hok
  | signed neg hst he hneg hb _ haf hcnt hz hex =>
    exact Phase.step_signed neg hst he hneg hb haf hcnt hz hex hok
  | integral sg ip hip hst haf hcnt hz => exact Phase.step_integral hip hst haf hcnt hz hok hend
  | zeros sg ip z hip hst haf hcnt hz => exact Phase.step_zeros hip hst haf hcnt hz hok hend
  | digits sg ip z c' cs hip hst hc' hc0 hcs haf hcnt _ hz =>
    exact Phase.step_digits hip hst hc' hc0 hcs haf hcnt hz hok hend

/-- **Run lemma.**  A run of the strict parser over a text without `'\0'` that ends without an
error and without ending the number has read the whole text in some phase. -/
theorem parseLoop_phase (input : List Char) (hnul : '\x00' ∉ input) :
    ∀ (s : ParseLoop) (w acc : List Char), Phase s w →
      (parseLoop .kNone s acc input).1.error = none →
      (parseLoop .kNone s acc input).1.state ≠ .«end» →
      Phase (parseLoop .kNone s acc input).1 (w ++ input) := by
  induction input with
  | nil =>
    intro s w acc h _ _
    rw [List.append_nil]
    exact h
  | cons c cs ih =>
    intro s w acc h hok hend
    have hc : c ≠ '\x00' := fun hc => hnul (hc ▸ List.mem_cons_self)
    simp only [parseLoop, hc, if_false] at hok hend ⊢
    by_cases hse : (step .kNone s c).state = .«end»
    · simp only [hse, if_true] at hend
      exact absurd rfl hend
    · simp only [hse, if_false] at hok hend ⊢
      have hstep := Phase.step h (error_of_parseLoop hok) hse
      simpa using ih (fun h => hnul (List.mem_cons_of_mem _ h)) _ _ _ hstep hok hend

/-- The reset of a long zero fraction does not touch the error. -/
theorem error_ite_reset (p : Prop) [Decidable p] (t : ParseLoop) :
    (if p then { t with afterDigitCount := 0, after := 0, zerosAfterDec := 0 } else t).error =
      t.error := by
  split <;> rfl

/-- What the checks after the loop demand of a run of the strict parser that they let through:
no error, a number that did not end on a character, some digits, and digits after a dot. -/
theorem finishParse_kNone {q : StringCharSequence} (h : (finishParse .kNone s q).error = none) :
    s.error = none ∧ s.state ≠ .«end» ∧ (s.beforeDigitCount ≠ 0 ∨ s.afterDigitCount ≠ 0) ∧
      (s.state = .zerosAfterDec → s.afterDigitCount ≠ 0) := by
  simp only [finishParse, error_ite_reset] at h
  have he : s.error = none := by
    cases he : s.error with
    | none => rfl
    | some e => simp [he] at h
  -- an ended number is always rejected: as a space, or as trailing junk
  have hend : s.state ≠ .«end» := by
    intro hend
    simp [he, hend, ParseOptions.kNone, trailingScan_error_ne_none] at h
  refine ⟨he, hend, ?_, ?_⟩
  · by_contra hd
    simp only [not_or, not_not] at hd
    simp [he, hend, hd.1, hd.2] at h
  · intro hz hc
    by_cases hb : s.beforeDigitCount = 0 <;> simp [he, hz, hc, hb, ParseOptions.kNone] at h

/-- A run of at least 256 zeros starts with 256 of them. -/
theorem replicate_append_of_le {z : Nat} (hz : 256 ≤ z) (rest : List Char) :
    ∃ v, List.replicate z '0' ++ rest = List.replicate 256 '0' ++ v :=
  ⟨List.replicate (z - 256) '0' ++ rest, by
    rw [← List.append_assoc, ← List.replicate_add, Nat.add_sub_cancel' hz]⟩

/-- The final phase of a run that the checks after the loop let through is a text of the
grammar, read as `FractionRead` says. -/
theorem phase_strictText {input : List Char} {q : StringCharSequence} (h : Phase s input)
    (hfin : (finishParse .kNone s q).error = none)
    (hrun : ∀ u v, input ≠ u ++ '.' :: (List.replicate 256 '0' ++ v)) :
    ∃ t : StrictText, t.text = input ∧ t.integralValue < 10 ^ kMaxDecimalDigits ∧
      FractionRead t.isNegative t.integralValue t.fractionDigits.length t.fractionValue s := by
  obtain ⟨he, -, hdig, hdot⟩ := finishParse_kNone hfin
  -- the zero run after the dot is shorter than 256, so the counter did not wrap
  have hshort : ∀ sg ip z rest, input = signText sg ++ ip ++ '.' :: (List.replicate z '0' ++ rest) →
      z < 256 := by
    intro sg ip z rest hin
    by_contra hz
    obtain ⟨v, hv⟩ := replicate_append_of_le (Nat.le_of_not_lt hz) rest
    exact hrun (signText sg ++ ip) v (by rw [hin, hv])
  have hint : ∀ {sg ip}, IntegralPart sg ip s → Nat.ofDigitChars 10 ip 0 < 10 ^ kMaxDecimalDigits :=
    fun hip => lt_of_lt_of_le hip.bound (Nat.pow_le_pow_right (by decide) hip.beforeDigitCount_le)
  cases h with
  | start _ _ _ _ hbd _ hcnt =>
    simp [hbd, hcnt] at hdig
  | signed _ _ _ _ _ hbd _ hcnt =>
    simp [hbd, hcnt] at hdig
  | integral sg ip hip hst haf hcnt hz =>
    refine ⟨⟨sg, ip, none, hip.ne, hip.digits, by simp, by simp⟩, by simp [StrictText.text,
      StrictText.fractionText], hint hip, ?_⟩
    exact
      { state := hst.elim (fun h => .inl h.1) (fun h => .inr (.inl h))
        zerosCounted := fun h => by rcases hst with ⟨h', -⟩ | h' <;> simp [h'] at h
        error := he
        before := hip.before
        beforeDigitCount := hip.beforeDigitCount_pos
        isNegative := hip.isNegative
        after := by simp [haf, StrictText.fractionValue, StrictText.fractionDigits]
        afterDigitCount := by simp [hcnt, StrictText.fractionDigits]
        zerosAfterDec := fun h => by rw [hz] at h; exact absurd h (by decide)
        zeroRun := fun _ h => by simp [StrictText.fractionDigits, kMaxDecimalDigits] at h
        zerosAfterDec_le := by simp [hz]
        exponent := hip.exponent }
  | zeros sg ip z hip hst haf hcnt hz =>
    have hz256 := hshort sg ip z [] (by simp)
    have hz0 : 0 < z := by
      have := hdot hst
      rw [Ne, ← UInt8.toNat_inj, hcnt] at this
      simp at this
      omega
    have hcnt' : s.afterDigitCount.toNat = z := by rw [hcnt, Nat.mod_eq_of_lt hz256]
    refine ⟨⟨sg, ip, some (List.replicate z '0'), hip.ne, hip.digits, by simp; omega,
      fun f hf => by cases hf; exact allDigits_replicate_zero z⟩,
      by simp [StrictText.text, StrictText.fractionText], hint hip, ?_⟩
    have hfd : StrictText.fractionDigits ⟨sg, ip, some (List.replicate z '0'), hip.ne, hip.digits,
        by simp; omega, fun f hf => by cases hf; exact allDigits_replicate_zero z⟩ =
        List.replicate z '0' := rfl
    exact
      { state := .inr (.inr (.inl hst))
        zerosCounted := fun _ => by rw [hcnt']; exact hz0
        error := he
        before := hip.before
        beforeDigitCount := hip.beforeDigitCount_pos
        isNegative := hip.isNegative
        after := by simp [haf, StrictText.fractionValue, hfd]
        afterDigitCount := by rw [hfd, List.length_replicate, hcnt']
        zerosAfterDec := fun _ => by simp [StrictText.fractionValue, hfd]
        zeroRun := fun _ h => by rw [hfd, List.length_replicate] at h; rw [hz]; exact h
        zerosAfterDec_le := by rw [hfd, List.length_replicate, hz]
        exponent := hip.exponent }
  | digits sg ip z c cs hip hst hc hc0 hcs haf hcnt hle hz =>
    have hz256 := hshort sg ip z (c :: cs) rfl
    rw [Nat.mod_eq_of_lt hz256] at hcnt hle
    have hf : AllDigits (List.replicate z '0' ++ c :: cs) :=
      allDigits_append.2 ⟨allDigits_replicate_zero z, allDigits_cons.2 ⟨hc, hcs⟩⟩
    refine ⟨⟨sg, ip, some (List.replicate z '0' ++ c :: cs), hip.ne, hip.digits, by simp,
      fun f h => by cases h; exact hf⟩, by simp [StrictText.text, StrictText.fractionText],
      hint hip, ?_⟩
    have hpos : 0 < Nat.ofDigitChars 10 (c :: cs) 0 :=
      lt_of_lt_of_le (by positivity) (pow_le_ofDigitChars_cons cs hc hc0)
    exact
      { state := .inr (.inr (.inr hst))
        zerosCounted := fun h => by rw [hst] at h; cases h
        error := he
        before := hip.before
        beforeDigitCount := hip.beforeDigitCount_pos
        isNegative := hip.isNegative
        after := by simp [haf, StrictText.fractionValue, StrictText.fractionDigits]
        afterDigitCount := by simp [hcnt, StrictText.fractionDigits]; omega
        zerosAfterDec := fun h => by unfold kMaxDecimalDigits at h hle; omega
        zeroRun := fun h => by
          simp [StrictText.fractionValue, StrictText.fractionDigits] at h; omega
        zerosAfterDec_le := by simp [hz, StrictText.fractionDigits]
        exponent := hip.exponent }

/-- A text of the grammar has no run of 256 zeros after its dot only if its all-zero
fractions are shorter than 256 digits. -/
theorem StrictText.zeroRun_lt (t : StrictText)
    (hrun : ∀ u v, t.text ≠ u ++ '.' :: (List.replicate 256 '0' ++ v))
    (h0 : ∀ c ∈ t.fractionDigits, c = '0') : t.fractionDigits.length < 256 := by
  by_contra hlen
  cases hf : t.fraction with
  | none => simp [StrictText.fractionDigits, hf] at hlen
  | some f =>
    have hfd : t.fractionDigits = f := by simp [StrictText.fractionDigits, hf]
    rw [hfd] at hlen h0
    obtain ⟨v, hv⟩ := replicate_append_of_le (Nat.le_of_not_lt hlen) []
    rw [List.append_nil, ← List.eq_replicate_iff.2 ⟨rfl, h0⟩] at hv
    exact hrun (signText t.sign ++ t.integral) v (by
      simp only [StrictText.text, hf, StrictText.fractionText, hv])

/-- **The strict constructor.**  On a text without `'\0'` and without 256 zeros right after a
dot, `Decimal<Prec, RP>(s)` succeeds with `d` exactly when `s` is a text of the grammar
`[+-]?[0-9]+(\.[0-9]+)?` that the parser accepts by design, and `d` is the rational number the
text denotes, unrounded. -/
theorem fromString_eq_ok_iff {prec : Nat} {rp : RoundPolicy} (hp : prec ≤ kMaxDecimalDigits)
    (input : List Char) (hnul : '\x00' ∉ input)
    (hrun : ∀ u v, input ≠ u ++ '.' :: (List.replicate 256 '0' ++ v)) (d : Decimal prec rp) :
    Decimal.fromString prec rp input = .ok d ↔
      ∃ t : StrictText, t.text = input ∧ t.Accepted prec ∧ (d.unbiased : ℚ) = t.value * 10 ^ prec := by
  -- on an accepted text, `Parse` builds the value the text denotes
  have hvalue : ∀ t : StrictText, t.text = input → t.Accepted prec →
      Decimal.fromString prec rp input = pure (Decimal.fromUnbiased (t.unbiasedValue prec)) := by
    rintro t rfl hacc
    exact parse_strictText prec rp t hp hacc (t.zeroRun_lt hrun)
  have hmul : ∀ t : StrictText, t.Accepted prec → t.value * 10 ^ prec = (t.unbiasedValue prec : ℚ) := by
    intro t hacc
    rcases hacc.1 with hk | ⟨-, h0⟩
    · exact StrictText.value_mul_pow (.inl hk)
    · exact StrictText.value_mul_pow (.inr (StrictText.fractionValue_eq_zero h0))
  constructor
  · intro h
    obtain ⟨herr, hdd, hguard⟩ := parse_ok_checks h
    obtain ⟨he, hend, -, -⟩ := finishParse_kNone herr
    have hph := parseLoop_phase input hnul ParseLoop.init [] [] phase_init he hend
    rw [List.nil_append] at hph
    obtain ⟨t, htext, hint, hfr⟩ := phase_strictText hph herr hrun
    have hu := parseUnpacked_of_fractionRead hfr
    have hacc : t.Accepted prec := by
      refine ⟨?_, hint, hu.before ▸ hguard⟩
      rcases hu.fraction with ⟨-, hdk, -⟩ | ⟨hF, h18, -, -⟩
      · exact .inl (hdk ▸ hdd rfl)
      · refine .inr ⟨h18, (ofDigitChars_eq_zero_iff ?_).1 hF⟩
        unfold StrictText.fractionDigits
        cases hf : t.fraction with
        | none => exact allDigits_nil
        | some f => exact t.fraction_digits f hf
    refine ⟨t, htext, hacc, ?_⟩
    rw [hvalue t htext hacc] at h
    cases h
    rw [Decimal.fromUnbiased_unbiased (StrictText.unbiasedValue_inInt64 hacc), hmul t hacc]
  · rintro ⟨t, htext, hacc, hval⟩
    have hd : d.unbiased = t.unbiasedValue prec := by exact_mod_cast hval.trans (hmul t hacc)
    rw [hvalue t htext hacc, ← hd, Decimal.fromUnbiased_self]
    rfl

theorem fromString_eq_ok_iff_minus_twelve_and_a_half :
    (Decimal.fromString 2 .defRound ['-', '1', '2', '.', '5'] = .ok (Decimal.fromUnbiased (-1250)) ↔
      ∃ t : StrictText, t.text = ['-', '1', '2', '.', '5'] ∧ t.Accepted 2 ∧
        ((Decimal.fromUnbiased (-1250) : Decimal 2 .defRound).unbiased : ℚ) = t.value * 10 ^ 2) :=
  fromString_eq_ok_iff (by decide) _ (by decide)
    (fun u v h => by
      have := congrArg List.length h
      simp only [List.length_append, List.length_cons, List.length_replicate, List.length_nil] at this
      omega) _

/-- Five zero fractional digits at precision 4 are rejected although their value has no digit
beyond the precision: the `kRounding` check counts trailing zeros. -/
theorem fromString_zero_fraction_rounding :
    Decimal.fromString 4 .defRound ['0', '.', '0', '0', '0', '0', '0'] =
      .error (.parse .rounding 0) := by
  decide

end Decimal64

end Userver
