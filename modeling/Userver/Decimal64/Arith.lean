import Mathlib
import Userver.Decimal64.Basic

/-!
# Fixed-point decimals: rounding division

`impl::Div` and `impl::MulDiv` (`universal/include/userver/decimal64/decimal64.hpp`) are where
`Decimal` arithmetic rounds.  Each policy's `DivRounded` computes the truncated quotient
`a / b` of C++ and corrects it by `-1`, `0` or `1` from the remainder.  This file proves that
the correction is the policy's rounding of the remainder's fraction `(a % b) / b`
(`divRounded_eq_tdiv_add_round`), so that, by the library's `Rounding.round_div_eq_tdiv_add`,
`Div` is the policy's rounding of the rational `a / b` (`div_eq_round`).

`DefRoundPolicy` rounds differently: it moves the dividend away from zero by half the divisor
and truncates.  Wherever it does not throw it agrees with `HalfUpRoundPolicy`
(`divRounded_defRound_eq_halfUp`).
-/

namespace Userver

namespace Decimal64

open Rounding

/-- `Abs` of any value but `INT64_MIN` is its magnitude. -/
theorem abs_of_ne_kMinInt64 {v : Int} (h : v ≠ kMinInt64) : abs v = .ok (v.natAbs : Int) := by
  unfold abs
  rw [if_neg h]
  congr 1
  split_ifs <;> omega

/-! ## The half policies -/

section HalfPolicies

variable {a b : Int} (e : Bool)

/-- The magnitudes `ShouldRoundAwayFromZeroDiv` compares: `|b| / 2` and `|a| % |b|`, which is
`|a % b|`. -/
private theorem should_operands (ha : a ≠ kMinInt64) (hb : b ≠ kMinInt64) (p : HalfPolicy) :
    p.shouldRoundAwayFromZeroDiv a b e =
      match p with
      | .halfUp => pure (if (b.natAbs : Int).tmod 2 = 0 then
          decide (((a.tmod b).natAbs : Int) ≥ (b.natAbs : Int).tdiv 2)
          else decide (((a.tmod b).natAbs : Int) > (b.natAbs : Int).tdiv 2))
      | .halfDown => pure (decide (((a.tmod b).natAbs : Int) > (b.natAbs : Int).tdiv 2))
      | .halfEven => pure (if (b.natAbs : Int).tmod 2 = 0 ∧
            ((a.tmod b).natAbs : Int) = (b.natAbs : Int).tdiv 2 then
          (decide (((a.natAbs : Int).tdiv b.natAbs).tmod 2 = 0) == e)
          else decide (((a.tmod b).natAbs : Int) > (b.natAbs : Int).tdiv 2)) := by
  have hrem : ((a.natAbs : Int)).tmod (b.natAbs : Int) = ((a.tmod b).natAbs : Int) := by
    rw [Int.natAbs_tmod, Int.ofNat_tmod]
  cases p <;>
    simp only [HalfPolicy.shouldRoundAwayFromZeroDiv, abs_of_ne_kMinInt64 ha,
      abs_of_ne_kMinInt64 hb, Codec.ok_bind, hrem]

theorem shouldRoundAwayFromZeroDiv_halfUp (ha : a ≠ kMinInt64) (hb : b ≠ kMinInt64) :
    HalfPolicy.halfUp.shouldRoundAwayFromZeroDiv a b e =
      .ok (decide (b.natAbs ≤ 2 * (a.tmod b).natAbs)) := by
  rw [should_operands e ha hb]
  simp only [Int.natCast_tdiv_eq_ediv, Int.tmod_eq_emod_of_nonneg (Int.natCast_nonneg _)]
  congr 1
  split_ifs <;> simp only [decide_eq_decide] <;> omega

theorem shouldRoundAwayFromZeroDiv_halfDown (ha : a ≠ kMinInt64) (hb : b ≠ kMinInt64) :
    HalfPolicy.halfDown.shouldRoundAwayFromZeroDiv a b e =
      .ok (decide (b.natAbs < 2 * (a.tmod b).natAbs)) := by
  rw [should_operands e ha hb]
  simp only [Int.natCast_tdiv_eq_ediv]
  congr 1
  simp only [decide_eq_decide]
  omega

theorem shouldRoundAwayFromZeroDiv_halfEven (ha : a ≠ kMinInt64) (hb : b ≠ kMinInt64) :
    HalfPolicy.halfEven.shouldRoundAwayFromZeroDiv a b e =
      .ok (if b.natAbs = 2 * (a.tmod b).natAbs then decide (Even (a.tdiv b)) == e
        else decide (b.natAbs < 2 * (a.tmod b).natAbs)) := by
  rw [should_operands e ha hb]
  -- the parity of `|a| / |b|` is the parity of the quotient
  have hparity : (((a.natAbs : Int).tdiv b.natAbs).tmod 2 = 0) ↔ Even (a.tdiv b) := by
    rw [← Int.natAbs_even, Int.natAbs_tdiv, Int.natCast_tdiv_eq_ediv,
      Int.tmod_eq_emod_of_nonneg (Int.ediv_nonneg (Int.natCast_nonneg _) (Int.natCast_nonneg _)),
      ← Int.natCast_ediv, Nat.even_iff]
    show _ ↔ a.natAbs / b.natAbs % 2 = 0
    omega
  simp only [Int.natCast_tdiv_eq_ediv, Int.tmod_eq_emod_of_nonneg (Int.natCast_nonneg _)] at hparity ⊢
  congr 1
  have htie : ((b.natAbs : Int) % 2 = 0 ∧ ((a.tmod b).natAbs : Int) = (b.natAbs : Int) / 2) ↔
      b.natAbs = 2 * (a.tmod b).natAbs := by omega
  rw [if_congr htie rfl rfl]
  split_ifs
  · simp only [hparity]
  · simp only [decide_eq_decide]
    omega

/-- `HalfRoundPolicyBase::DivRounded` moves the truncated quotient away from zero when the
policy says so. -/
theorem HalfPolicy.divRounded_of_should {p : HalfPolicy} {s : Bool}
    (h : p.shouldRoundAwayFromZeroDiv a b e = .ok s) :
    p.divRounded a b e = .ok (a.tdiv b + if s then a.sign * b.sign else 0) := by
  simp only [HalfPolicy.divRounded, h, Codec.ok_bind]
  cases s <;> simp only [Bool.false_eq_true, ↓reduceIte, add_zero] <;> rfl

/-- The half policies take `Abs` of both operands, so they return only for operands other than
`INT64_MIN`. -/
theorem HalfPolicy.ne_kMinInt64_of_divRounded {p : HalfPolicy} {x : Int}
    (h : p.divRounded a b e = .ok x) : a ≠ kMinInt64 ∧ b ≠ kMinInt64 := by
  obtain ⟨s, hs, -⟩ := Codec.bind_eq_ok.mp h
  obtain ⟨absA, hA, hs⟩ := Codec.bind_eq_ok.mp hs
  obtain ⟨absB, hB, -⟩ := Codec.bind_eq_ok.mp hs
  constructor <;> rintro rfl <;> simp [abs] at hA hB

end HalfPolicies

/-! ## Each correction is a rounding of the remainder's fraction -/

section Corrections

variable {a b : Int} (e : Bool) (hb0 : b ≠ 0)
include hb0

/-- A half policy's correction, `Sign(a) * Sign(b)` when it rounds away from zero, is the sign
of the fraction `(a % b) / b`. -/
private theorem half_correction {P : Prop} [Decidable P] (hP : P → a.tmod b ≠ 0) :
    (if P then a.sign * b.sign else 0) =
      if P then (if 0 < (a.tmod b : ℚ) / b then 1 else -1) else 0 := by
  by_cases h : P
  · rw [if_pos h, if_pos h]
    exact sign_mul_sign_of_tmod_ne_zero hb0 (hP h)
  · rw [if_neg h, if_neg h]

/-- A remainder at least half the divisor is not zero. -/
private theorem tmod_ne_zero_of_half_le (h : b.natAbs ≤ 2 * (a.tmod b).natAbs) : a.tmod b ≠ 0 := by
  have hB : 0 < b.natAbs := Int.natAbs_pos.mpr hb0
  omega

/-- Half away from zero moves the quotient by its sign when the remainder is at least half the
divisor. -/
theorem round_halfAwayFromZero_tmod_div :
    Mode.halfAwayFromZero.round ((a.tmod b : ℚ) / b) =
      if b.natAbs ≤ 2 * (a.tmod b).natAbs then a.sign * b.sign else 0 := by
  obtain ⟨hlo, hhi⟩ := abs_lt.mp (abs_tmod_div_lt_one (α := ℚ) (a := a) hb0)
  rw [round_halfAwayFromZero_window hlo hhi, window_le_eq_abs (by norm_num),
    half_correction hb0 (tmod_ne_zero_of_half_le hb0)]
  simp only [half_le_abs_tmod_div_iff hb0]

/-- Half toward zero, only when it is more than half. -/
theorem round_halfTowardZero_tmod_div :
    Mode.halfTowardZero.round ((a.tmod b : ℚ) / b) =
      if b.natAbs < 2 * (a.tmod b).natAbs then a.sign * b.sign else 0 := by
  obtain ⟨hlo, hhi⟩ := abs_lt.mp (abs_tmod_div_lt_one (α := ℚ) (a := a) hb0)
  rw [round_halfTowardZero_window hlo hhi, window_lt_eq_abs (by norm_num),
    half_correction hb0 fun h => tmod_ne_zero_of_half_le hb0 h.le]
  simp only [half_lt_abs_tmod_div_iff hb0]

/-- In the window half-even never reaches a tie's even neighbour `±1`: it rounds as half toward
zero. -/
theorem round_halfEven_tmod_div :
    Mode.halfEven.round ((a.tmod b : ℚ) / b) =
      if b.natAbs < 2 * (a.tmod b).natAbs then a.sign * b.sign else 0 := by
  obtain ⟨hlo, hhi⟩ := abs_lt.mp (abs_tmod_div_lt_one (α := ℚ) (a := a) hb0)
  rw [← round_halfTowardZero_tmod_div hb0, round_halfEven_window hlo hhi,
    round_halfTowardZero_window hlo hhi]

theorem divRounded_halfUp_eq (ha : a ≠ kMinInt64) (hb : b ≠ kMinInt64) :
    RoundPolicy.halfUp.divRounded a b e =
      .ok (a.tdiv b + Mode.halfAwayFromZero.round ((a.tmod b : ℚ) / b)) := by
  simp only [RoundPolicy.divRounded]
  rw [HalfPolicy.divRounded_of_should e (shouldRoundAwayFromZeroDiv_halfUp e ha hb),
    round_halfAwayFromZero_tmod_div hb0]
  simp only [decide_eq_true_eq]

theorem divRounded_halfDown_eq (ha : a ≠ kMinInt64) (hb : b ≠ kMinInt64) :
    RoundPolicy.halfDown.divRounded a b e =
      .ok (a.tdiv b + Mode.halfTowardZero.round ((a.tmod b : ℚ) / b)) := by
  simp only [RoundPolicy.divRounded]
  rw [HalfPolicy.divRounded_of_should e (shouldRoundAwayFromZeroDiv_halfDown e ha hb),
    round_halfTowardZero_tmod_div hb0]
  simp only [decide_eq_true_eq]

/-- `HalfEvenPolicy` breaks a tie by the parity of the quotient, flipped when
`extra_odd_quotient` is set: it rounds half to even when the quotient's parity, read with the
flag, is even, and half away from zero otherwise. -/
theorem divRounded_halfEven_eq (ha : a ≠ kMinInt64) (hb : b ≠ kMinInt64) :
    RoundPolicy.halfEven.divRounded a b e =
      .ok (a.tdiv b + if (Even (a.tdiv b) ↔ e = false) then
        Mode.halfEven.round ((a.tmod b : ℚ) / b)
        else Mode.halfAwayFromZero.round ((a.tmod b : ℚ) / b)) := by
  simp only [RoundPolicy.divRounded]
  rw [HalfPolicy.divRounded_of_should e (shouldRoundAwayFromZeroDiv_halfEven e ha hb),
    round_halfEven_tmod_div hb0, round_halfAwayFromZero_tmod_div hb0]
  congr 2
  by_cases htie : b.natAbs = 2 * (a.tmod b).natAbs
  · -- a tie: the flag and the parity decide
    have hlt : ¬b.natAbs < 2 * (a.tmod b).natAbs := by omega
    rw [if_pos htie, if_neg hlt, if_pos htie.le]
    cases e <;> by_cases hq : Even (a.tdiv b) <;> simp [hq]
  · -- off a tie both roundings move the quotient only past half the divisor
    have hiff : b.natAbs ≤ 2 * (a.tmod b).natAbs ↔ b.natAbs < 2 * (a.tmod b).natAbs := by omega
    rw [if_neg htie]
    simp only [decide_eq_true_eq, hiff, ite_self]

theorem divRounded_ceiling_eq :
    RoundPolicy.ceiling.divRounded a b e = .ok (a.tdiv b + Mode.ceiling.round ((a.tmod b : ℚ) / b)) := by
  obtain ⟨hlo, hhi⟩ := abs_lt.mp (abs_tmod_div_lt_one (α := ℚ) (a := a) hb0)
  have hround : Mode.ceiling.round ((a.tmod b : ℚ) / b) = ⌈(a.tmod b : ℚ) / b⌉ := rfl
  rw [hround, ceil_of_window hlo hhi]
  simp only [RoundPolicy.divRounded, tmod_div_pos_iff hb0, beq_iff_eq, decide_eq_decide, ge_iff_le]
  rfl

theorem divRounded_floor_eq :
    RoundPolicy.floor.divRounded a b e = .ok (a.tdiv b + Mode.floor.round ((a.tmod b : ℚ) / b)) := by
  obtain ⟨hlo, hhi⟩ := abs_lt.mp (abs_tmod_div_lt_one (α := ℚ) (a := a) hb0)
  have hround : Mode.floor.round ((a.tmod b : ℚ) / b) = ⌊(a.tmod b : ℚ) / b⌋ := rfl
  rw [hround, floor_of_window hlo hhi]
  simp only [RoundPolicy.divRounded, tmod_div_neg_iff hb0, bne_iff_ne, ne_eq, decide_eq_decide]
  congr 1
  -- `a < 0` and `b < 0` differ exactly when `0 ≤ a` and `0 ≤ b` do
  split_ifs <;> omega

theorem divRounded_roundDown_eq :
    RoundPolicy.roundDown.divRounded a b e =
      .ok (a.tdiv b + Mode.towardZero.round ((a.tmod b : ℚ) / b)) := by
  obtain ⟨hlo, hhi⟩ := abs_lt.mp (abs_tmod_div_lt_one (α := ℚ) (a := a) hb0)
  rw [round_towardZero_window hlo hhi, add_zero]
  rfl

theorem divRounded_roundUp_eq :
    RoundPolicy.roundUp.divRounded a b e =
      .ok (a.tdiv b + Mode.awayFromZero.round ((a.tmod b : ℚ) / b)) := by
  obtain ⟨hlo, hhi⟩ := abs_lt.mp (abs_tmod_div_lt_one (α := ℚ) (a := a) hb0)
  rw [round_awayFromZero_window hlo hhi]
  simp only [RoundPolicy.divRounded]
  congr 2
  by_cases hr : a.tmod b = 0
  · -- an exact division: the fraction is zero
    simp [hr]
  · have hf : (a.tmod b : ℚ) / b ≠ 0 :=
      div_ne_zero (Int.cast_ne_zero.mpr hr) (Int.cast_ne_zero.mpr hb0)
    rw [if_pos hr, one_mul, sign_mul_sign_of_tmod_ne_zero (α := ℚ) hb0 hr]
    split_ifs with h1 h2 <;> first | rfl | exact absurd (lt_of_le_of_ne (not_lt.mp h1) hf) h2

end Corrections

/-! ## `DefRoundPolicy` -/

section DefRound

variable {a b x : Int} (e : Bool)

/-- `DefRoundPolicy::DivRounded`, wherever it returns, moves the truncated quotient away from
zero when the remainder is at least half the divisor: what `HalfUpRoundPolicy` does. -/
theorem divRounded_defRound_of_ok (hb0 : b ≠ 0) (h : RoundPolicy.defRound.divRounded a b e = .ok x) :
    x = a.tdiv b + if b.natAbs ≤ 2 * (a.tmod b).natAbs then a.sign * b.sign else 0 := by
  simp only [RoundPolicy.divRounded] at h
  obtain ⟨corr, hcorr, h⟩ := Codec.bind_eq_ok.mp h
  -- `Abs(b / 2)` is `|b| / 2`
  have hmin : b.tdiv 2 ≠ kMinInt64 := by
    intro hm
    rw [hm] at hcorr
    simp [abs] at hcorr
  rw [abs_of_ne_kMinInt64 hmin, Int.natAbs_tdiv] at hcorr
  cases hcorr
  have hne := tmod_ne_zero_of_half_le hb0 (a := a)
  by_cases ha : a ≥ 0
  · rw [if_pos ha] at h
    by_cases hguard : kMaxInt64 - a < ((b.natAbs.div (Int.natAbs 2) : ℕ) : Int)
    · rw [if_pos hguard] at h
      cases h
    · rw [if_neg hguard] at h
      cases h
      rw [show b.natAbs.div (Int.natAbs 2) = b.natAbs / 2 from rfl, tdiv_add_half_of_nonneg ha hb0]
      by_cases hhalf : b.natAbs ≤ 2 * (a.tmod b).natAbs
      · -- the dividend is positive: `Sign(a) = 1`
        have hpos : 0 < a := by
          have hr := hne hhalf
          have hr' : (a.tmod b).natAbs ≤ a.natAbs := natAbs_tmod_le
          omega
        rw [if_pos hhalf, if_pos hhalf, Int.sign_eq_one_of_pos hpos, one_mul]
      · rw [if_neg hhalf, if_neg hhalf]
  · rw [if_neg ha] at h
    by_cases hguard : -(kMinInt64 - a) < ((b.natAbs.div (Int.natAbs 2) : ℕ) : Int)
    · rw [if_pos hguard] at h
      cases h
    · rw [if_neg hguard] at h
      cases h
      rw [show b.natAbs.div (Int.natAbs 2) = b.natAbs / 2 from rfl,
        tdiv_sub_half_of_nonpos (by omega) hb0]
      by_cases hhalf : b.natAbs ≤ 2 * (a.tmod b).natAbs
      · rw [if_pos hhalf, if_pos hhalf, Int.sign_eq_neg_one_of_neg (show a < 0 by omega)]
        ring
      · rw [if_neg hhalf, if_neg hhalf]
        ring

end DefRound

/-! ## `Div` -/

section Div

variable {a b x : Int}

theorem RoundPolicy.mode_ne_halfEven {rp : RoundPolicy} (hrp : rp ≠ .halfEven) :
    rp.mode ≠ .halfEven := by
  cases rp <;> simp_all [RoundPolicy.mode]

/-- `DefRoundPolicy`, which adds half the divisor before it truncates, agrees with
`HalfUpRoundPolicy` wherever it returns. -/
theorem divRounded_defRound_eq_halfUp (e : Bool) (ha : a ≠ kMinInt64) (hb : b ≠ kMinInt64)
    (hb0 : b ≠ 0) (h : RoundPolicy.defRound.divRounded a b e = .ok x) :
    RoundPolicy.halfUp.divRounded a b e = .ok x := by
  rw [divRounded_halfUp_eq e hb0 ha hb, round_halfAwayFromZero_tmod_div hb0,
    divRounded_defRound_of_ok e hb0 h]

theorem divRounded_defRound_eq_halfUp_at_seven_halves :
    RoundPolicy.halfUp.divRounded 7 2 false = .ok 4 :=
  divRounded_defRound_eq_halfUp false (by decide) (by decide) (by decide) rfl

/-- Every policy but half-even: wherever `DivRounded` returns, it is the truncated quotient plus
the policy's rounding of the remainder's fraction. -/
theorem divRounded_of_ok {rp : RoundPolicy} {e : Bool} (hrp : rp ≠ .halfEven) (hb0 : b ≠ 0)
    (h : rp.divRounded a b e = .ok x) : x = a.tdiv b + rp.mode.round ((a.tmod b : ℚ) / b) := by
  cases rp with
  | defRound =>
    rw [divRounded_defRound_of_ok e hb0 h, RoundPolicy.mode, round_halfAwayFromZero_tmod_div hb0]
  | halfDown =>
    obtain ⟨ha, hb⟩ := HalfPolicy.ne_kMinInt64_of_divRounded e h
    rw [divRounded_halfDown_eq e hb0 ha hb] at h
    exact (Except.ok.inj h).symm
  | halfUp =>
    obtain ⟨ha, hb⟩ := HalfPolicy.ne_kMinInt64_of_divRounded e h
    rw [divRounded_halfUp_eq e hb0 ha hb] at h
    exact (Except.ok.inj h).symm
  | halfEven => exact absurd rfl hrp
  | ceiling =>
    rw [divRounded_ceiling_eq e hb0] at h
    exact (Except.ok.inj h).symm
  | floor =>
    rw [divRounded_floor_eq e hb0] at h
    exact (Except.ok.inj h).symm
  | roundDown =>
    rw [divRounded_roundDown_eq e hb0] at h
    exact (Except.ok.inj h).symm
  | roundUp =>
    rw [divRounded_roundUp_eq e hb0] at h
    exact (Except.ok.inj h).symm

/-- `Div` returns the policy's rounding of the rational `a / b` whenever it returns. -/
theorem div_eq_round_of_ok {rp : RoundPolicy} (h : div rp a b false = .ok x) :
    x = rp.mode.round ((a : ℚ) / b) := by
  unfold div at h
  by_cases hb0 : b = 0
  · rw [if_pos hb0] at h
    cases h
  rw [if_neg hb0] at h
  by_cases hm1 : b = -1
  · -- `b = -1`: `Div` negates
    rw [if_pos hm1] at h
    by_cases hmin : a = kMinInt64
    · rw [if_pos hmin] at h
      cases h
    · rw [if_neg hmin] at h
      cases h
      subst hm1
      rw [show (a : ℚ) / ((-1 : ℤ) : ℚ) = ((-a : ℤ) : ℚ) by push_cast; ring, Rounding.round_intCast]
  · rw [if_neg hm1] at h
    by_cases hrp : rp = .halfEven
    · subst hrp
      obtain ⟨ha, hb⟩ := HalfPolicy.ne_kMinInt64_of_divRounded false h
      rw [divRounded_halfEven_eq false hb0 ha hb] at h
      rw [← Except.ok.inj h, RoundPolicy.mode, round_halfEven_div_eq_tdiv_add (a := a) hb0]
      simp only [iff_true]
    · rw [divRounded_of_ok hrp hb0 h, round_div_eq_tdiv_add (a := a) hb0 _ (RoundPolicy.mode_ne_halfEven hrp)]

/-- `Div` returns for every non-zero divisor other than `INT64_MIN` when `|a| + |b| / 2` is an
`int64_t`, the condition `DefRoundPolicy` checks. -/
theorem div_ok (rp : RoundPolicy) (e : Bool) (hb0 : b ≠ 0) (hb : (b.natAbs : Int) ≤ kMaxInt64)
    (hab : (a.natAbs : Int) + b.natAbs / 2 ≤ kMaxInt64) : ∃ x, div rp a b e = .ok x := by
  have hmax : kMaxInt64 = 2 ^ 63 - 1 := rfl
  have hmin64 : kMinInt64 = -2 ^ 63 := rfl
  have ha : a ≠ kMinInt64 := by
    intro h
    rw [h] at hab
    simp only [kMinInt64] at hab
    omega
  have hbmin : b ≠ kMinInt64 := by
    intro h
    rw [h] at hb
    simp only [kMinInt64] at hb
    omega
  unfold div
  rw [if_neg hb0]
  split_ifs with hm1
  · exact ⟨_, rfl⟩
  · cases rp with
    | defRound =>
      -- `Abs(b / 2)` is `|b| / 2`, and neither guard fires
      have hhalf : (b.tdiv 2).natAbs = b.natAbs / 2 := Int.natAbs_tdiv b 2
      have hmin : b.tdiv 2 ≠ kMinInt64 := by
        unfold kMinInt64
        omega
      simp only [RoundPolicy.divRounded, abs_of_ne_kMinInt64 hmin, hhalf, Codec.ok_bind]
      split_ifs with hpos hguard hguard'
      · omega
      · exact ⟨_, rfl⟩
      · omega
      · exact ⟨_, rfl⟩
    | halfDown => exact ⟨_, divRounded_halfDown_eq e hb0 ha hbmin⟩
    | halfUp => exact ⟨_, divRounded_halfUp_eq e hb0 ha hbmin⟩
    | halfEven => exact ⟨_, divRounded_halfEven_eq e hb0 ha hbmin⟩
    | ceiling => exact ⟨_, rfl⟩
    | floor => exact ⟨_, rfl⟩
    | roundDown => exact ⟨_, rfl⟩
    | roundUp => exact ⟨_, rfl⟩

/-- For every policy, `Div(a, b)` is the policy's rounding of the rational `a / b`, whenever
`b` is a non-zero `int64_t` other than `INT64_MIN` and `|a| + |b| / 2` is an `int64_t`. -/
theorem div_eq_round (rp : RoundPolicy) (hb0 : b ≠ 0) (hb : (b.natAbs : Int) ≤ kMaxInt64)
    (hab : (a.natAbs : Int) + b.natAbs / 2 ≤ kMaxInt64) :
    div rp a b false = .ok (rp.mode.round ((a : ℚ) / b)) := by
  obtain ⟨x, hx⟩ := div_ok rp false hb0 hb hab
  rw [hx, div_eq_round_of_ok hx]

theorem div_eq_round_at_seven_halves :
    div .halfEven 7 2 false = .ok (RoundPolicy.halfEven.mode.round (((7 : Int) : ℚ) / ((2 : Int) : ℚ))) :=
  div_eq_round .halfEven (by decide) (by decide) (by decide)

end Div

/-! ## `MulDiv` -/

/-- `impl::MulDiv<RoundPolicy>(value1, value2, divisor)` on a 64-bit platform: the product is
an exact `__int128`, divided with truncation; the quotient must lie strictly inside `int64_t`,
and the remainder is rounded by `Div`, told whether the quotient is odd. -/
def mulDiv (rp : RoundPolicy) (value1 value2 divisor : Int) : Except DecimalError Int := do
  if divisor = 0 then throw .divisionByZero
  let prod := value1 * value2
  let whole := prod.tdiv divisor
  let rem := prod.tmod divisor
  if whole ≤ kMinInt64 ∨ whole ≥ kMaxInt64 then throw .outOfBounds
  let extraOddQuotient := decide (whole.tmod 2 ≠ 0)
  let remDivided ← div rp rem divisor extraOddQuotient
  pure (whole + remDivided)

section MulDiv

variable {a b d r : Int}

/-- A remainder divided again leaves no quotient. -/
private theorem tmod_tdiv_self (hd : d ≠ 0) : (a.tmod d).tdiv d = 0 := by
  apply Int.natAbs_eq_zero.mp
  rw [Int.natAbs_tdiv]
  exact Nat.div_eq_of_lt (natAbs_tmod_lt hd)

/-- What `Div` does with the remainder: the policy's rounding of its fraction, half-even
breaking a tie away from the even neighbour when the flag says the quotient is odd. -/
private theorem div_tmod_of_ok {rp : RoundPolicy} {e : Bool} {δ : Int} (hd : d ≠ 0)
    (h : div rp (a.tmod d) d e = .ok δ) :
    δ = if rp = .halfEven ∧ e = true then Mode.halfAwayFromZero.round ((a.tmod d : ℚ) / d)
      else rp.mode.round ((a.tmod d : ℚ) / d) := by
  unfold div at h
  rw [if_neg hd] at h
  by_cases hm1 : d = -1
  · -- dividing by `-1` leaves no remainder, and `Div` negates it
    subst hm1
    have hr : a.tmod (-1) = 0 := by rw [Int.tmod_neg, Int.tmod_one]
    rw [if_pos rfl, hr] at h
    simp only [if_neg (by decide : (0 : Int) ≠ kMinInt64)] at h
    cases h
    simp
  rw [if_neg hm1] at h
  by_cases hrp : rp = .halfEven
  · subst hrp
    obtain ⟨ha, hb⟩ := HalfPolicy.ne_kMinInt64_of_divRounded e h
    rw [divRounded_halfEven_eq e hd ha hb, tmod_tdiv_self hd, Int.tmod_tmod] at h
    cases e <;> simp [← Except.ok.inj h, RoundPolicy.mode]
  · rw [divRounded_of_ok hrp hd h, tmod_tdiv_self hd, Int.tmod_tmod, zero_add, if_neg (by tauto)]

/-- Wherever `MulDiv(a, b, d)` returns, it returns the policy's rounding of the rational
`a * b / d`. -/
theorem mulDiv_of_ok {rp : RoundPolicy} (h : mulDiv rp a b d = .ok r) :
    r = rp.mode.round (((a * b : Int) : ℚ) / d) := by
  unfold mulDiv at h
  by_cases hd : d = 0
  · simp [hd] at h
    cases h
  simp only [if_neg hd] at h
  by_cases hguard : (a * b).tdiv d ≤ kMinInt64 ∨ (a * b).tdiv d ≥ kMaxInt64
  · rw [if_pos hguard] at h
    cases h
  rw [if_neg hguard] at h
  obtain ⟨δ, hδ, h⟩ := Codec.bind_eq_ok.mp h
  cases h
  rw [div_tmod_of_ok hd hδ]
  by_cases hrp : rp = .halfEven
  · -- half-even: the flag is the parity of the quotient
    subst hrp
    have hodd : decide (((a * b).tdiv d).tmod 2 ≠ 0) = true ↔ ¬Even ((a * b).tdiv d) := by
      rw [decide_eq_true_iff, even_iff_two_dvd, Int.dvd_iff_tmod_eq_zero]
    rw [RoundPolicy.mode, round_halfEven_div_eq_tdiv_add (a := a * b) hd]
    by_cases he : Even ((a * b).tdiv d)
    · rw [if_neg fun h => hodd.mp h.2 he, if_pos he]
    · rw [if_pos ⟨rfl, hodd.mpr he⟩, if_neg he]
  · rw [if_neg (by tauto), round_div_eq_tdiv_add (a := a * b) hd _ (RoundPolicy.mode_ne_halfEven hrp)]

/-- `MulDiv` throws when the truncated quotient reaches either end of `int64_t`. -/
theorem mulDiv_of_guard {rp : RoundPolicy} (hd0 : d ≠ 0)
    (hguard : (a * b).tdiv d ≤ kMinInt64 ∨ (a * b).tdiv d ≥ kMaxInt64) :
    mulDiv rp a b d = .error .outOfBounds := by
  simp only [mulDiv, if_neg hd0, if_pos hguard]
  rfl

/-- Otherwise it returns, for a divisor with `|d| ≤ 2^62`: the remainder is smaller than the
divisor, so `Div` of it returns. -/
theorem mulDiv_ok (rp : RoundPolicy) (hd0 : d ≠ 0) (hd : d.natAbs ≤ 2 ^ 62)
    (hguard : ¬((a * b).tdiv d ≤ kMinInt64 ∨ (a * b).tdiv d ≥ kMaxInt64)) :
    ∃ r, mulDiv rp a b d = .ok r := by
  have hmax : kMaxInt64 = 2 ^ 63 - 1 := rfl
  have hrem := natAbs_tmod_lt (a := a * b) hd0
  obtain ⟨δ, hδ⟩ := div_ok rp (decide (((a * b).tdiv d).tmod 2 ≠ 0)) hd0
    (show (d.natAbs : Int) ≤ kMaxInt64 by omega)
    (show (((a * b).tmod d).natAbs : Int) + d.natAbs / 2 ≤ kMaxInt64 by omega)
  refine ⟨(a * b).tdiv d + δ, ?_⟩
  simp only [mulDiv, if_neg hd0, if_neg hguard, hδ, Codec.ok_bind]
  rfl

/-- `MulDiv(a, b, d)` for a non-zero divisor with `|d| ≤ 2^62` (every `10^Prec` is one): it
throws exactly when the truncated quotient reaches either end of `int64_t`, and otherwise returns
the policy's rounding of the rational `a * b / d`.  The guard is one short of the range: a
quotient of exactly `INT64_MAX` or `INT64_MIN` throws although it is an `int64_t`. -/
theorem mulDiv_eq_round (rp : RoundPolicy) (hd0 : d ≠ 0) (hd : d.natAbs ≤ 2 ^ 62) :
    mulDiv rp a b d =
      if (a * b).tdiv d ≤ kMinInt64 ∨ (a * b).tdiv d ≥ kMaxInt64 then .error .outOfBounds
      else .ok (rp.mode.round (((a * b : Int) : ℚ) / d)) := by
  by_cases hguard : (a * b).tdiv d ≤ kMinInt64 ∨ (a * b).tdiv d ≥ kMaxInt64
  · rw [if_pos hguard, mulDiv_of_guard hd0 hguard]
  · obtain ⟨r, hr⟩ := mulDiv_ok rp hd0 hd hguard
    rw [if_neg hguard, hr, mulDiv_of_ok hr]

theorem mulDiv_eq_round_at_four_and_a_half :
    mulDiv .halfEven 15 3 10 =
      if ((15 : Int) * 3).tdiv 10 ≤ kMinInt64 ∨ ((15 : Int) * 3).tdiv 10 ≥ kMaxInt64 then
        .error .outOfBounds
      else .ok (RoundPolicy.halfEven.mode.round ((((15 : Int) * 3 : Int) : ℚ) / ((10 : Int) : ℚ))) :=
  mulDiv_eq_round .halfEven (by decide) (by decide)

/-- What `MulDiv` returns is an `int64_t`: its guard leaves one step on each side of the
truncated quotient for the rounding. -/
theorem mulDiv_inInt64 {rp : RoundPolicy} (h : mulDiv rp a b d = .ok r) : InInt64 r := by
  have hr := mulDiv_of_ok h
  unfold mulDiv at h
  by_cases hd : d = 0
  · simp [hd] at h
    cases h
  simp only [if_neg hd] at h
  by_cases hguard : (a * b).tdiv d ≤ kMinInt64 ∨ (a * b).tdiv d ≥ kMaxInt64
  · rw [if_pos hguard] at h
    cases h
  have hstep := abs_round_div_sub_tdiv_le_one (α := ℚ) (a := a * b) hd rp.mode
  rw [← hr, abs_le] at hstep
  unfold InInt64
  omega

end MulDiv

end Decimal64

end Userver
