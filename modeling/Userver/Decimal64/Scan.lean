import Userver.Decimal64.Parse
import Userver.Lib.DigitString

/-!
# Runs of the parser over digit strings

What `ParseUnpacked` does on the pieces a decimal is made of.  Each `step_*` lemma is one
transition of `step` from one state on one class of character; each `parseLoop_*` lemma runs a
whole segment (the digits of the integral part, a run of zeros after the dot, the remaining
fractional digits) by induction over the segment, from the transition lemmas.
-/

namespace Userver

namespace Decimal64

open DigitString

variable {o : ParseOptions} {s : ParseLoop} {c : Char}

theorem digitOf_eq_val (hc : c.isDigit = true) : digitOf c = (val c : Int) := by
  have := isDigit_iff.1 hc
  simp only [digitOf, val, show '0'.toNat = 48 from rfl]
  omega

theorem ne_nul_of_isDigit (hc : c.isDigit = true) : c ≠ '\x00' := by
  rintro rfl
  exact absurd hc (by decide)

theorem nonzero_digit_range (hc : c.isDigit = true) (h0 : c ≠ '0') : '1' ≤ c ∧ c ≤ '9' := by
  have := isDigit_iff.1 hc
  have h48 : c.toNat ≠ 48 := fun h => h0 (Char.toNat_inj.1 h)
  exact ⟨Char.le_def.2 (by change 49 ≤ c.toNat; omega),
    Char.le_def.2 (by change c.toNat ≤ 57; omega)⟩

theorem uint8_toNat_add_one {x : UInt8} (h : x.toNat < 255) : (x + 1).toNat = x.toNat + 1 := by
  rw [UInt8.toNat_add, UInt8.toNat_one]
  omega

/-! ### Single transitions -/

theorem step_sign_minus (hst : s.state = .sign) (he : s.error = none) :
    step o s '-' = { s with
        position := s.position + 1
        isNegative := true
        state := .beforeFirstDig } := by
  simp [step, hst, he]

theorem step_sign_plus (hst : s.state = .sign) (he : s.error = none) :
    step o s '+' = { s with position := s.position + 1, state := .beforeFirstDig } := by
  simp [step, hst, he]

theorem step_zero_of_start (hst : s.state = .sign ∨ s.state = .beforeFirstDig)
    (he : s.error = none) :
    step o s '0' = { s with
        position := s.position + 1
        state := .leadingZeros
        beforeDigitCount := 1 } := by
  rcases hst with hst | hst <;> simp [step, hst, he]

theorem step_nonzero_of_start (hst : s.state = .sign ∨ s.state = .beforeFirstDig)
    (he : s.error = none) (hc : c.isDigit = true) (h0 : c ≠ '0') :
    step o s c = { s with
        position := s.position + 1
        state := .beforeDec
        before := val c
        beforeDigitCount := 1 } := by
  have hr := nonzero_digit_range hc h0
  have hm : c ≠ '-' := by rintro rfl; exact absurd hc (by decide)
  have hp : c ≠ '+' := by rintro rfl; exact absurd hc (by decide)
  rcases hst with hst | hst <;> simp [step, hst, he, hr, hm, hp, h0, digitOf_eq_val hc]

theorem step_leadingZeros_zero (hst : s.state = .leadingZeros) (he : s.error = none) :
    step o s '0' = { s with position := s.position + 1 } := by
  simp [step, hst, he]

theorem step_leadingZeros_nonzero (hst : s.state = .leadingZeros) (he : s.error = none)
    (hc : c.isDigit = true) (h0 : c ≠ '0') :
    step o s c = { s with position := s.position + 1, state := .beforeDec, before := val c } := by
  have hr := nonzero_digit_range hc h0
  simp [step, hst, he, hr, h0, digitOf_eq_val hc]

theorem step_beforeDec_digit (hst : s.state = .beforeDec) (he : s.error = none)
    (hc : c.isDigit = true) (hn : s.beforeDigitCount < kMaxDecimalDigits) :
    step o s c = { s with
        position := s.position + 1
        before := 10 * s.before + val c
        beforeDigitCount := s.beforeDigitCount + 1 } := by
  simp [step, hst, he, hc, hn, digitOf_eq_val hc]

theorem step_dot_of_integral (hst : s.state = .leadingZeros ∨ s.state = .beforeDec)
    (he : s.error = none) :
    step o s '.' = { s with position := s.position + 1, state := .zerosAfterDec } := by
  rcases hst with hst | hst <;> simp [step, hst, he]

theorem step_zerosAfterDec_zero (hst : s.state = .zerosAfterDec) (he : s.error = none) :
    step o s '0' = { s with
        position := s.position + 1
        zerosAfterDec := s.zerosAfterDec + 1
        afterDigitCount := s.afterDigitCount + 1 } := by
  simp [step, hst, he]

theorem step_fraction_digit (hst : s.state = .zerosAfterDec ∨ s.state = .afterDec)
    (he : s.error = none) (hc : c.isDigit = true) (h0 : s.state = .zerosAfterDec → c ≠ '0')
    (hn : s.afterDigitCount.toNat < kMaxDecimalDigits) :
    step o s c = { s with
        position := s.position + 1
        state := .afterDec
        after := 10 * s.after + val c
        afterDigitCount := s.afterDigitCount + 1 } := by
  rcases hst with hst | hst
  · simp [step, hst, he, afterDecChar, hc, hn, h0 hst, digitOf_eq_val hc]
  · simp [step, hst, he, afterDecChar, hc, hn, digitOf_eq_val hc]

/-- The checks after the loop pass on a number that ended cleanly: without an error, inside a
number, with digits and without a dangling exponent.  Only the reset of a long zero fraction
remains. -/
theorem finishParse_of_clean (q : StringCharSequence) (he : s.error = none)
    (hst : s.state = .leadingZeros ∨ s.state = .beforeDec ∨ s.state = .zerosAfterDec ∨
      s.state = .afterDec)
    (hdig : 1 ≤ s.beforeDigitCount) (hdot : s.state = .zerosAfterDec → s.afterDigitCount ≠ 0) :
    finishParse o s q = if kMaxDecimalDigits ≤ s.zerosAfterDec then
      { s with afterDigitCount := 0, after := 0, zerosAfterDec := 0 } else s := by
  have hend : s.state ≠ .«end» := by rcases hst with h | h | h | h <;> simp [h]
  have hexp : ¬(s.state = .expSign ∨ s.state = .expFirstDigit) := by
    rcases hst with h | h | h | h <;> simp [h]
  have hbd : ¬(s.state = .zerosAfterDec ∧ o.allowBoundaryDot = false ∧ s.afterDigitCount = 0) :=
    fun h => hdot h.1 h.2.2
  simp [finishParse, hend, he, hexp, Nat.pos_iff_ne_zero.1 hdig, hbd]

/-- `Parse` on a result without an error or an exponent: the sign applied to both parts, and an
all-zero fractional part dropped with its digit count. -/
theorem parse_of_exponent_eq_zero {prec : Nat} {rp : RoundPolicy} {input : List Char}
    (herr : (parseUnpacked o input).error = none)
    (hround : (parseUnpacked o input).decimalDigits.toNat ≤ prec ∨ o.allowRounding = true)
    (hover : (parseUnpacked o input).before < kMaxInt64.tdiv (10 ^ prec))
    (hexp : (parseUnpacked o input).exponent = 0) :
    parse prec rp o input =
      let r := parseUnpacked o input
      fromUnpackedPrec prec rp (if r.isNegative then -r.before else r.before)
        (if r.isNegative then -r.after else r.after)
        (if r.after = 0 then 0 else r.decimalDigits.toNat) := by
  unfold parse
  generalize parseUnpacked o input = r at *
  have hr : ¬((!o.allowRounding) = true ∧ r.decimalDigits.toNat > prec) := by
    rintro ⟨h1, h2⟩
    rcases hround with h | h
    · omega
    · simp [h] at h1
  simp only [herr, hexp, hr, Int.not_le.2 hover, ne_eq, not_true_eq_false, if_false]
  by_cases ha : r.after = 0
  · by_cases hd : 0 < r.decimalDigits.toNat
    · cases r.isNegative <;> simp [ha, hd]
    · have hd0 : r.decimalDigits.toNat = 0 := by omega
      cases r.isNegative <;> simp [ha, hd0]
  · cases r.isNegative <;> simp [ha]

/-! ### Errors are never cleared -/

theorem error_of_step (h : (step o s c).error = none) : s.error = none := by
  cases he : s.error with
  | none => rfl
  | some e =>
    exfalso
    unfold step at h
    simp only [he, Option.isNone_some, Bool.false_eq_true, if_false] at h
    -- every branch keeps the error or sets another one
    split at h <;> (try simp only [afterDecChar, stateToExpSign] at h) <;> (try split_ifs at h) <;>
      simp_all

theorem error_of_parseLoop {acc input : List Char} (h : (parseLoop o s acc input).1.error = none) :
    s.error = none := by
  induction input generalizing s acc with
  | nil => exact h
  | cons c cs ih =>
    simp only [parseLoop] at h
    split at h
    · exact h
    · split at h
      · exact error_of_step h
      · exact error_of_step (ih h)

theorem trailingScan_error_ne_none {e : ParseErrorCode} {position : Int} {l : List Char} :
    (trailingScan (some e) position l).1 ≠ none := by
  induction l generalizing position with
  | nil => simp [trailingScan]
  | cons c cs ih =>
    simp only [trailingScan]
    split
    · simp
    · split
      · simp
      · exact ih

/-- What a successful `Parse` has checked: no parse error, no digits beyond `Prec` unless
rounding is allowed, and the integral part below the overflow guard. -/
theorem parse_ok_checks {prec : Nat} {rp : RoundPolicy} {input : List Char} {d : Decimal prec rp}
    (h : parse prec rp o input = .ok d) :
    (parseUnpacked o input).error = none ∧
      (o.allowRounding = false → (parseUnpacked o input).decimalDigits.toNat ≤ prec) ∧
      (parseUnpacked o input).before < kMaxInt64.tdiv (10 ^ prec) := by
  unfold parse at h
  generalize parseUnpacked o input = r at h ⊢
  cases herr : r.error with
  | some e => simp [herr] at h; cases h
  | none =>
    simp only [herr] at h
    refine ⟨rfl, fun hr => ?_, ?_⟩
    · by_contra hd
      simp [hr, Nat.lt_of_not_le hd] at h
      cases h
    · by_contra hb
      simp only [Int.not_lt] at hb
      simp [hb] at h
      split_ifs at h <;> cases h

/-! ### Segments -/

theorem parseLoop_cons (hc : c ≠ '\x00') (hend : (step o s c).state ≠ .«end»)
    (acc cs : List Char) :
    parseLoop o s acc (c :: cs) = parseLoop o (step o s c) (c :: acc) cs := by
  simp [parseLoop, hc, hend]

/-- Leading zeros of the integral part only advance the position. -/
theorem parseLoop_leadingZeros (z : Nat) :
    ∀ (s : ParseLoop) (acc rest : List Char), s.state = .leadingZeros → s.error = none →
      parseLoop o s acc (List.replicate z '0' ++ rest) =
        parseLoop o { s with position := s.position + z } (List.replicate z '0' ++ acc) rest := by
  induction z with
  | zero =>
    intro s acc rest _ _
    cases s
    simp
  | succ z ih =>
    intro s acc rest hst he
    have hstep := step_leadingZeros_zero (o := o) hst he
    have hinput : List.replicate (z + 1) '0' ++ rest = '0' :: (List.replicate z '0' ++ rest) :=
      rfl
    have hacc : List.replicate z '0' ++ '0' :: acc = List.replicate (z + 1) '0' ++ acc := by
      rw [List.replicate_succ', List.append_assoc]
      rfl
    rw [hinput, parseLoop_cons (by decide) (by rw [hstep]; simp [hst]),
      ih (step o s '0') _ _ (by rw [hstep]; exact hst) (by rw [hstep]; exact he), hstep]
    simp only [hacc]
    congr 2
    push_cast
    ring

/-- The digits after the first one of the integral part accumulate in `before`. -/
theorem parseLoop_beforeDec (ds : List Char) (hd : AllDigits ds) :
    ∀ (s : ParseLoop) (b : Nat) (acc rest : List Char), s.state = .beforeDec →
      s.error = none → s.before = b → s.beforeDigitCount + ds.length ≤ kMaxDecimalDigits →
      parseLoop o s acc (ds ++ rest) =
        parseLoop o { s with
            position := s.position + ds.length
            before := Nat.ofDigitChars 10 ds b
            beforeDigitCount := s.beforeDigitCount + ds.length } (ds.reverse ++ acc) rest := by
  induction ds with
  | nil =>
    intro s b acc rest _ _ hb _
    cases s
    simp_all
  | cons c cs ih =>
    intro s b acc rest hst he hb hn
    obtain ⟨hc, hcs⟩ := allDigits_cons.1 hd
    simp only [List.length_cons] at hn
    have hstep := step_beforeDec_digit (o := o) hst he hc (by omega)
    rw [List.cons_append, parseLoop_cons (ne_nul_of_isDigit hc) (by rw [hstep]; simp [hst]),
      ih hcs (step o s c) (10 * b + val c) _ _ (by rw [hstep]; exact hst)
        (by rw [hstep]; exact he) (by rw [hstep, hb]; push_cast; ring)
        (by rw [hstep]; simp only; omega), hstep]
    simp only [ofDigitChars_cons_val, List.reverse_cons, List.append_assoc, List.cons_append,
      List.nil_append, List.length_cons]
    congr 2 <;> push_cast <;> ring

/-- A run of zeros right after the dot only counts. -/
theorem parseLoop_zeros (z : Nat) :
    ∀ (s : ParseLoop) (acc rest : List Char), s.state = .zerosAfterDec → s.error = none →
      s.afterDigitCount.toNat + z < 256 →
      parseLoop o s acc (List.replicate z '0' ++ rest) =
        parseLoop o { s with
            position := s.position + z
            zerosAfterDec := s.zerosAfterDec + z
            afterDigitCount := UInt8.ofNat (s.afterDigitCount.toNat + z) }
          (List.replicate z '0' ++ acc) rest := by
  induction z with
  | zero =>
    intro s acc rest _ _ _
    cases s
    simp
  | succ z ih =>
    intro s acc rest hst he hn
    have hstep := step_zerosAfterDec_zero (o := o) hst he
    have hcount := uint8_toNat_add_one (x := s.afterDigitCount) (by omega)
    have hinput : List.replicate (z + 1) '0' ++ rest = '0' :: (List.replicate z '0' ++ rest) :=
      rfl
    have hacc : List.replicate z '0' ++ '0' :: acc = List.replicate (z + 1) '0' ++ acc := by
      rw [List.replicate_succ', List.append_assoc]
      rfl
    rw [hinput, parseLoop_cons (by decide) (by rw [hstep]; simp [hst]),
      ih (step o s '0') _ _ (by rw [hstep]; exact hst) (by rw [hstep]; exact he)
        (by rw [hstep]; simp only [hcount]; omega), hstep]
    simp only [hcount, hacc]
    congr 2
    · push_cast; ring
    · congr 1; omega
    · omega

/-- The fractional digits from the first non-zero one accumulate in `after`. -/
theorem parseLoop_afterDec (ds : List Char) (hd : AllDigits ds) :
    ∀ (s : ParseLoop) (x : Nat) (acc rest : List Char), s.state = .afterDec →
      s.error = none → s.after = x → s.afterDigitCount.toNat + ds.length ≤ kMaxDecimalDigits →
      parseLoop o s acc (ds ++ rest) =
        parseLoop o { s with
            position := s.position + ds.length
            after := Nat.ofDigitChars 10 ds x
            afterDigitCount := UInt8.ofNat (s.afterDigitCount.toNat + ds.length) }
          (ds.reverse ++ acc) rest := by
  induction ds with
  | nil =>
    intro s x acc rest _ _ hx _
    cases s
    simp_all
  | cons c cs ih =>
    intro s x acc rest hst he hx hn
    obtain ⟨hc, hcs⟩ := allDigits_cons.1 hd
    simp only [List.length_cons] at hn
    unfold kMaxDecimalDigits at hn
    have hstep := step_fraction_digit (o := o) (.inr hst) he hc (by simp [hst])
      (by unfold kMaxDecimalDigits; omega)
    have hcount := uint8_toNat_add_one (x := s.afterDigitCount) (by omega)
    rw [List.cons_append, parseLoop_cons (ne_nul_of_isDigit hc) (by rw [hstep]; simp),
      ih hcs (step o s c) (10 * x + val c) _ _ (by rw [hstep]) (by rw [hstep]; exact he)
        (by rw [hstep, hx]; push_cast; ring)
        (by rw [hstep]; simp only [hcount]; unfold kMaxDecimalDigits; omega), hstep]
    simp only [hcount, ofDigitChars_cons_val, List.reverse_cons, List.append_assoc,
      List.cons_append, List.nil_append, List.length_cons]
    congr 2
    · push_cast; ring
    · rw [hst]
    · congr 1; omega

/-- A fractional part after the dot: a run of zeros, then digits from a non-zero one. -/
theorem parseLoop_zerosThenDigits (z : Nat) (c : Char) (cs : List Char) (hc : c.isDigit = true)
    (hc0 : c ≠ '0') (hcs : AllDigits cs) (s : ParseLoop) (x : Nat) (acc rest : List Char)
    (hst : s.state = .zerosAfterDec) (he : s.error = none) (hx : s.after = x)
    (hn : s.afterDigitCount.toNat + z + 1 + cs.length ≤ kMaxDecimalDigits) :
    parseLoop o s acc (List.replicate z '0' ++ c :: cs ++ rest) =
      parseLoop o { s with
          position := s.position + (z + 1 + cs.length)
          state := .afterDec
          after := Nat.ofDigitChars 10 cs (10 * x + val c)
          zerosAfterDec := s.zerosAfterDec + z
          afterDigitCount := UInt8.ofNat (s.afterDigitCount.toNat + z + 1 + cs.length) }
        (cs.reverse ++ c :: (List.replicate z '0' ++ acc)) rest := by
  unfold kMaxDecimalDigits at hn
  rw [List.append_assoc, parseLoop_zeros z s acc _ hst he (by omega)]
  have hcount : (UInt8.ofNat (s.afterDigitCount.toNat + z)).toNat =
      s.afterDigitCount.toNat + z := by
    rw [UInt8.toNat_ofNat']; omega
  -- the first non-zero digit leaves the zeros state
  have hstep := step_fraction_digit (o := o) (c := c)
    (s := { s with
      position := s.position + z
      zerosAfterDec := s.zerosAfterDec + z
      afterDigitCount := UInt8.ofNat (s.afterDigitCount.toNat + z) })
    (.inl hst) he hc (fun _ => hc0) (by simp only [hcount]; unfold kMaxDecimalDigits; omega)
  have hcount' := uint8_toNat_add_one (x := UInt8.ofNat (s.afterDigitCount.toNat + z))
    (by rw [hcount]; omega)
  rw [List.cons_append, parseLoop_cons (ne_nul_of_isDigit hc) (by rw [hstep]; simp), hstep,
    parseLoop_afterDec cs hcs _ (10 * x + val c) _ rest ?st ?err ?after ?count]
  · simp only [hcount', hcount]
    congr 2
    ring
  case st => rfl
  case err => exact he
  case after => simp [hx]
  case count => simp only [hcount', hcount]; unfold kMaxDecimalDigits; omega

end Decimal64

end Userver
