import Mathlib

/-!
# Rounding to an integer

The rounding modes of fixed-point arithmetic as functions from an ordered field with a floor to
the integers: rounding to the nearest integer with a tie broken away from zero, toward zero or to
the even neighbour, and the four directed roundings.  They state what a rounding division is
meant to compute; a concrete division is then compared with `Mode.round` of the exact quotient.
-/

namespace Rounding

/-- The rounding modes. -/
inductive Mode where
  | halfAwayFromZero
  | halfTowardZero
  | halfEven
  | ceiling
  | floor
  | towardZero
  | awayFromZero
  deriving DecidableEq, Repr

variable {α : Type*} [Field α] [LinearOrder α] [IsStrictOrderedRing α] [FloorRing α]

/-- `x` rounded to an integer with the mode.  Off a tie, the three nearest modes all give
`⌊x + 1/2⌋`. -/
def Mode.round : Mode → α → ℤ
  | .halfAwayFromZero, x => if 0 ≤ x then ⌊x + 1 / 2⌋ else ⌈x - 1 / 2⌉
  | .halfTowardZero, x => if 0 ≤ x then ⌈x - 1 / 2⌉ else ⌊x + 1 / 2⌋
  | .halfEven, x =>
    if Int.fract x = 1 / 2 then (if Even ⌊x⌋ then ⌊x⌋ else ⌊x⌋ + 1) else ⌊x + 1 / 2⌋
  | .ceiling, x => ⌈x⌉
  | .floor, x => ⌊x⌋
  | .towardZero, x => if 0 ≤ x then ⌊x⌋ else ⌈x⌉
  | .awayFromZero, x => if 0 ≤ x then ⌈x⌉ else ⌊x⌋

theorem fract_int_add_half (n : ℤ) : Int.fract ((n : α) + 1 / 2) = 1 / 2 := by
  rw [Int.fract_intCast_add, Int.fract_eq_self]
  constructor <;> norm_num

theorem floor_int_add_half (n : ℤ) : ⌊(n : α) + 1 / 2⌋ = n := by
  rw [Int.floor_intCast_add, add_eq_left, Int.floor_eq_zero_iff]
  constructor <;> norm_num

/-- A tie `n + 1/2` goes to whichever of `n` and `n + 1` is even. -/
theorem round_halfEven_of_tie (n : ℤ) :
    Mode.halfEven.round ((n : α) + 1 / 2) = if Even n then n else n + 1 := by
  simp only [Mode.round, fract_int_add_half, floor_int_add_half, if_true]

/-! ## Integers are kept -/

theorem ceil_int_sub_half (n : ℤ) : ⌈(n : α) - 1 / 2⌉ = n := by
  rw [Int.ceil_eq_iff]
  constructor <;> linarith

/-- Every mode keeps an integer. -/
@[simp] theorem round_intCast (m : Mode) (n : ℤ) : m.round (n : α) = n := by
  have hfract : Int.fract (n : α) ≠ 1 / 2 := by
    rw [Int.fract_intCast]
    norm_num
  cases m <;> simp only [Mode.round, Int.floor_intCast, Int.ceil_intCast, floor_int_add_half,
    ceil_int_sub_half, if_neg hfract, ite_self]

@[simp] theorem round_zero (m : Mode) : m.round (0 : α) = 0 := by
  simpa using round_intCast (α := α) m 0

/-! ## Rounding inside `(-1, 1)`

A quotient with remainder `n + r / b` rounds to `n` moved by at most one; which step the mode
takes depends on the fraction `f = r / b` alone, which lies in `(-1, 1)`. -/

section Window

variable {f : α} (hlo : -1 < f) (hhi : f < 1)
include hlo hhi

theorem floor_of_window : ⌊f⌋ = if f < 0 then -1 else 0 := by
  split_ifs with hf
  · rw [Int.floor_eq_iff]
    constructor <;> push_cast <;> linarith
  · rw [Int.floor_eq_zero_iff]
    constructor <;> linarith

theorem ceil_of_window : ⌈f⌉ = if 0 < f then 1 else 0 := by
  split_ifs with hf
  · rw [Int.ceil_eq_iff]
    constructor <;> push_cast <;> linarith
  · rw [Int.ceil_eq_iff]
    constructor <;> push_cast <;> linarith

theorem round_halfAwayFromZero_window :
    Mode.halfAwayFromZero.round f = if 1 / 2 ≤ f then 1 else if f ≤ -(1 / 2) then -1 else 0 := by
  simp only [Mode.round]
  split_ifs <;> first
    | rfl
    | (rw [Int.floor_eq_iff]; constructor <;> push_cast <;> linarith)
    | (rw [Int.ceil_eq_iff]; constructor <;> push_cast <;> linarith)

theorem round_halfTowardZero_window :
    Mode.halfTowardZero.round f = if 1 / 2 < f then 1 else if f < -(1 / 2) then -1 else 0 := by
  simp only [Mode.round]
  split_ifs <;> first
    | rfl
    | (rw [Int.floor_eq_iff]; constructor <;> push_cast <;> linarith)
    | (rw [Int.ceil_eq_iff]; constructor <;> push_cast <;> linarith)

/-- In the window, the ties are `±1/2`. -/
theorem tie_of_window (htie : Int.fract f = 1 / 2) :
    (f = 1 / 2 ∧ ⌊f⌋ = 0) ∨ (f = -(1 / 2) ∧ ⌊f⌋ = -1) := by
  have hf : f = ⌊f⌋ + 1 / 2 := by rw [← htie, Int.floor_add_fract]
  have hfloor := floor_of_window hlo hhi
  split_ifs at hfloor
  · right
    rw [hfloor] at hf
    push_cast at hf
    exact ⟨by linarith, hfloor⟩
  · left
    rw [hfloor] at hf
    push_cast at hf
    exact ⟨by linarith, hfloor⟩

omit hlo hhi in
/-- `±1/2` are ties. -/
theorem ne_half_of_not_tie (htie : Int.fract f ≠ 1 / 2) : f ≠ 1 / 2 ∧ f ≠ -(1 / 2) := by
  have h0 : Int.fract (((0 : ℤ) : α) + 1 / 2) = 1 / 2 := fract_int_add_half 0
  have h1 : Int.fract (((-1 : ℤ) : α) + 1 / 2) = 1 / 2 := fract_int_add_half (-1)
  rw [Int.cast_zero, zero_add] at h0
  rw [show ((-1 : ℤ) : α) + 1 / 2 = -(1 / 2) by push_cast; ring] at h1
  constructor <;> rintro rfl <;> contradiction

omit hlo hhi in
/-- Off a tie, adding `1/2` and flooring rounds to the nearest integer. -/
theorem floor_add_half_of_not_tie (hlo : -1 < f) (hhi : f < 1) (htie : Int.fract f ≠ 1 / 2) :
    ⌊f + 1 / 2⌋ = if 1 / 2 < f then 1 else if f < -(1 / 2) then -1 else 0 := by
  obtain ⟨hne, -⟩ := ne_half_of_not_tie htie
  split_ifs with h1 h2
  · rw [Int.floor_eq_iff]
    constructor <;> push_cast <;> linarith
  · rw [Int.floor_eq_iff]
    constructor <;> push_cast <;> linarith
  · have hlt : f < 1 / 2 := lt_of_le_of_ne (not_lt.mp h1) hne
    rw [Int.floor_eq_zero_iff]
    constructor <;> linarith

theorem round_halfEven_window :
    Mode.halfEven.round f = if 1 / 2 < f then 1 else if f < -(1 / 2) then -1 else 0 := by
  simp only [Mode.round]
  by_cases htie : Int.fract f = 1 / 2
  · -- a tie is `±1/2`, and its even neighbour is `0`
    rw [if_pos htie]
    rcases tie_of_window hlo hhi htie with ⟨hf, hfloor⟩ | ⟨hf, hfloor⟩ <;>
      rw [hfloor, hf] <;> norm_num
  · rw [if_neg htie]
    exact floor_add_half_of_not_tie hlo hhi htie

theorem round_towardZero_window : Mode.towardZero.round f = 0 := by
  simp only [Mode.round]
  split_ifs
  · rw [Int.floor_eq_zero_iff]
    constructor <;> linarith
  · rw [Int.ceil_eq_iff]
    constructor <;> push_cast <;> linarith

theorem round_awayFromZero_window :
    Mode.awayFromZero.round f = if 0 < f then 1 else if f < 0 then -1 else 0 := by
  simp only [Mode.round]
  split_ifs <;> first
    | rfl
    | (rw [Int.ceil_eq_iff]; constructor <;> push_cast <;> linarith)
    | (rw [Int.floor_eq_iff]; constructor <;> push_cast <;> linarith)

/-- Every mode rounds a fraction of the window to `-1`, `0` or `1`. -/
theorem abs_round_window_le_one (m : Mode) : |m.round f| ≤ 1 := by
  cases m with
  | halfAwayFromZero =>
    rw [round_halfAwayFromZero_window hlo hhi]
    split_ifs <;> norm_num
  | halfTowardZero =>
    rw [round_halfTowardZero_window hlo hhi]
    split_ifs <;> norm_num
  | halfEven =>
    rw [round_halfEven_window hlo hhi]
    split_ifs <;> norm_num
  | ceiling =>
    show |⌈f⌉| ≤ 1
    rw [ceil_of_window hlo hhi]
    split_ifs <;> norm_num
  | floor =>
    show |⌊f⌋| ≤ 1
    rw [floor_of_window hlo hhi]
    split_ifs <;> norm_num
  | towardZero =>
    rw [round_towardZero_window hlo hhi]
    norm_num
  | awayFromZero =>
    rw [round_awayFromZero_window hlo hhi]
    split_ifs <;> norm_num

end Window

/-! ## Moving by an integer of the same sign -/

section Shift

variable (n : ℤ) {f : α} (hlo : -1 < f) (hhi : f < 1) (hsign : 0 ≤ (n : α) * f)
include hlo hhi hsign

/-- A fraction in `(-1, 1)` with the sign of `n` (or any, for `n = 0`) rounds together with `n`
as it rounds alone, in every mode but half-even, which looks at the parity of `n`. -/
theorem round_int_add (m : Mode) (hm : m ≠ .halfEven) : m.round ((n : α) + f) = n + m.round f := by
  have hshift₁ : (n : α) + f + 1 / 2 = n + (f + 1 / 2) := by ring
  have hshift₂ : (n : α) + f - 1 / 2 = n + (f - 1 / 2) := by ring
  rcases lt_trichotomy f 0 with hf | rfl | hf
  · -- `f < 0`: then `n ≤ 0`, and every sign test sees a negative number
    have hn : (n : α) ≤ 0 := by
      by_contra hpos
      nlinarith
    have hx : ¬(0 ≤ (n : α) + f) := by linarith
    have hf' : ¬(0 ≤ f) := by linarith
    cases m <;> simp only [Mode.round, if_neg hx, if_neg hf', hshift₁, hshift₂, Int.floor_intCast_add,
      Int.ceil_intCast_add]
    exact absurd rfl hm
  · have h0 : m.round ((0 : ℤ) : α) = 0 := round_intCast m 0
    rw [Int.cast_zero] at h0
    rw [add_zero, h0, add_zero, round_intCast]
  · -- `0 < f`: then `0 ≤ n`, and every sign test sees a non-negative number
    have hn : 0 ≤ (n : α) := by
      by_contra hneg
      nlinarith
    have hx : 0 ≤ (n : α) + f := by linarith
    cases m <;> simp only [Mode.round, if_pos hx, if_pos hf.le, hshift₁, hshift₂,
      Int.floor_intCast_add, Int.ceil_intCast_add]
    exact absurd rfl hm

omit hsign in
/-- Half-even moves with `n` as half-even when `n` is even, and as half-away-from-zero when it
is odd: a tie then goes to the even neighbour `n ± 1`. -/
theorem round_halfEven_int_add :
    Mode.halfEven.round ((n : α) + f) =
      n + if Even n then Mode.halfEven.round f else Mode.halfAwayFromZero.round f := by
  have hfract : Int.fract ((n : α) + f) = Int.fract f := Int.fract_intCast_add n f
  have hfloor : ⌊(n : α) + f⌋ = n + ⌊f⌋ := Int.floor_intCast_add n f
  by_cases htie : Int.fract f = 1 / 2
  · -- the ties `n ± 1/2`
    have hleft : Mode.halfEven.round ((n : α) + f) =
        if Even (n + ⌊f⌋) then n + ⌊f⌋ else n + ⌊f⌋ + 1 := by
      simp only [Mode.round]
      rw [hfract, if_pos htie, hfloor]
    rw [hleft, round_halfEven_window hlo hhi, round_halfAwayFromZero_window hlo hhi]
    rcases tie_of_window hlo hhi htie with ⟨hf, hfl⟩ | ⟨hf, hfl⟩ <;> rw [hfl, hf]
    · by_cases he : Even n <;> simp [he]
    · have hodd : Even (n + -1) ↔ ¬Even n := by
        rw [← sub_eq_add_neg, Int.even_sub_one]
      by_cases he : Even n
      · simp [he, hodd.not.mpr (not_not.mpr he)]
      · simp [he, hodd.mpr he]
  · -- off a tie, half-even and half-away-from-zero agree on `f`
    obtain ⟨hne, hne'⟩ := ne_half_of_not_tie htie
    have hsame : Mode.halfEven.round f = Mode.halfAwayFromZero.round f := by
      rw [round_halfEven_window hlo hhi, round_halfAwayFromZero_window hlo hhi]
      have h1 : 1 / 2 ≤ f ↔ 1 / 2 < f := ⟨fun h => lt_of_le_of_ne h hne.symm, le_of_lt⟩
      have h2 : f ≤ -(1 / 2) ↔ f < -(1 / 2) := ⟨fun h => lt_of_le_of_ne h hne', le_of_lt⟩
      simp only [h1, h2]
    have hleft : Mode.halfEven.round ((n : α) + f) = n + Mode.halfEven.round f := by
      simp only [Mode.round]
      rw [hfract, if_neg htie, if_neg htie, show (n : α) + f + 1 / 2 = n + (f + 1 / 2) by ring,
        Int.floor_intCast_add]
    rw [hleft, ← hsame, ite_self]

end Shift

/-! ## The window in terms of `|f|` -/

section WindowAbs

variable {f : α}

omit [FloorRing α] in
/-- A three-way window test with bound `c > 0`, read as a test on `|f|` and then on the sign. -/
theorem window_le_eq_abs {c : α} (hc : 0 < c) :
    (if c ≤ f then (1 : ℤ) else if f ≤ -c then -1 else 0) =
      if c ≤ |f| then (if 0 < f then 1 else -1) else 0 := by
  rcases le_or_gt 0 f with hf | hf
  · rw [abs_of_nonneg hf]
    split_ifs <;> first | rfl | (exfalso; linarith)
  · rw [abs_of_neg hf]
    split_ifs <;> first | rfl | (exfalso; linarith)

omit [FloorRing α] in
/-- The same with strict comparisons and a bound `c ≥ 0`. -/
theorem window_lt_eq_abs {c : α} (hc : 0 ≤ c) :
    (if c < f then (1 : ℤ) else if f < -c then -1 else 0) =
      if c < |f| then (if 0 < f then 1 else -1) else 0 := by
  rcases le_or_gt 0 f with hf | hf
  · rw [abs_of_nonneg hf]
    split_ifs <;> first | rfl | (exfalso; linarith)
  · rw [abs_of_neg hf]
    split_ifs <;> first | rfl | (exfalso; linarith)

end WindowAbs

/-! ## Rounding a truncated division

`Int.tdiv` and `Int.tmod` are C's `/` and `%`.  A rounding division computes the truncated
quotient `q = a.tdiv b` and corrects it by `-1`, `0` or `1` from the remainder `r = a.tmod b`:
the fraction `r / b` lies in `(-1, 1)` and has the sign of `q`, so by the shift lemmas every mode
rounds `a / b` as `q` plus its rounding of `r / b`. -/

section TruncatedDivision

variable {a b : ℤ}

/-- The remainder has the sign of the dividend. -/
theorem tmod_nonneg_iff_of_nonneg (ha : 0 ≤ a) : 0 ≤ a.tmod b := Int.tmod_nonneg b ha

theorem tmod_nonpos_of_nonpos (ha : a ≤ 0) : a.tmod b ≤ 0 := by
  have h := Int.tmod_nonneg b (Int.neg_nonneg_of_nonpos ha)
  rw [Int.neg_tmod] at h
  omega

/-- The remainder is no larger than the dividend. -/
theorem natAbs_tmod_le : (a.tmod b).natAbs ≤ a.natAbs := by
  rw [Int.natAbs_tmod]
  exact Nat.mod_le _ _

private theorem half_mul_le_iff (x y : ℤ) : (1 / 2 : α) * x ≤ y ↔ x ≤ 2 * y := by
  constructor
  · intro h
    have h' : (x : α) ≤ ((2 * y : ℤ) : α) := by push_cast; linarith
    exact_mod_cast h'
  · intro h
    have h' : (x : α) ≤ ((2 * y : ℤ) : α) := by exact_mod_cast h
    push_cast at h'
    linarith

private theorem half_mul_lt_iff (x y : ℤ) : (1 / 2 : α) * x < y ↔ x < 2 * y := by
  constructor
  · intro h
    have h' : (x : α) < ((2 * y : ℤ) : α) := by push_cast; linarith
    exact_mod_cast h'
  · intro h
    have h' : (x : α) < ((2 * y : ℤ) : α) := by exact_mod_cast h
    push_cast at h'
    linarith

variable (hb : b ≠ 0)
include hb

theorem natAbs_tmod_lt : (a.tmod b).natAbs < b.natAbs := by
  rw [Int.natAbs_tmod]
  exact Nat.mod_lt _ (Int.natAbs_pos.mpr hb)

omit [FloorRing α] in
/-- `a / b` is the truncated quotient plus the remainder's fraction of `b`. -/
theorem div_eq_tdiv_add_tmod_div : (a : α) / b = a.tdiv b + (a.tmod b : α) / b := by
  have hb' : (b : α) ≠ 0 := Int.cast_ne_zero.mpr hb
  rw [Int.tmod_def]
  push_cast
  field_simp
  ring

theorem abs_tmod_div_lt_one : |(a.tmod b : α) / b| < 1 := by
  have hb' : (0 : α) < |(b : α)| := abs_pos.mpr (Int.cast_ne_zero.mpr hb)
  rw [abs_div, div_lt_one hb']
  have hlt : |a.tmod b| < |b| := by
    rw [Int.abs_eq_natAbs, Int.abs_eq_natAbs]
    exact_mod_cast natAbs_tmod_lt hb
  exact_mod_cast hlt

/-- The quotient and the remainder's fraction have the same sign. -/
theorem tdiv_mul_tmod_div_nonneg : 0 ≤ (a.tdiv b : α) * ((a.tmod b : α) / b) := by
  -- `b * q = a - r`, where `r` lies between `0` and `a`
  have hprod : 0 ≤ (b * a.tdiv b) * a.tmod b := by
    have hdef := Int.tmod_def a b
    have hle : (a.tmod b).natAbs ≤ a.natAbs := natAbs_tmod_le
    rcases le_total 0 a with ha | ha
    · have hr := tmod_nonneg_iff_of_nonneg (b := b) ha
      exact mul_nonneg (by omega) hr
    · have hr := tmod_nonpos_of_nonpos (b := b) ha
      exact mul_nonneg_of_nonpos_of_nonpos (by omega) hr
  have hb2 : (0 : α) < (b : α) ^ 2 := by
    have hb' : (b : α) ≠ 0 := Int.cast_ne_zero.mpr hb
    positivity
  have heq : (a.tdiv b : α) * ((a.tmod b : α) / b) =
      (((b * a.tdiv b) * a.tmod b : ℤ) : α) / (b : α) ^ 2 := by
    have hb' : (b : α) ≠ 0 := Int.cast_ne_zero.mpr hb
    push_cast
    field_simp
  rw [heq]
  exact div_nonneg (by exact_mod_cast hprod) hb2.le

/-- Every mode but half-even rounds `a / b` as the truncated quotient plus its rounding of the
remainder's fraction. -/
theorem round_div_eq_tdiv_add (m : Mode) (hm : m ≠ .halfEven) :
    m.round ((a : α) / b) = a.tdiv b + m.round ((a.tmod b : α) / b) := by
  obtain ⟨hlo, hhi⟩ := abs_lt.mp (abs_tmod_div_lt_one (α := α) hb)
  rw [div_eq_tdiv_add_tmod_div hb]
  exact round_int_add _ hlo hhi (tdiv_mul_tmod_div_nonneg hb) m hm

/-- Half-even looks at the parity of the truncated quotient. -/
theorem round_halfEven_div_eq_tdiv_add :
    Mode.halfEven.round ((a : α) / b) = a.tdiv b +
      if Even (a.tdiv b) then Mode.halfEven.round ((a.tmod b : α) / b)
      else Mode.halfAwayFromZero.round ((a.tmod b : α) / b) := by
  obtain ⟨hlo, hhi⟩ := abs_lt.mp (abs_tmod_div_lt_one (α := α) hb)
  rw [div_eq_tdiv_add_tmod_div hb]
  exact round_halfEven_int_add _ hlo hhi

/-- Every mode rounds `a / b` to the truncated quotient or one of its two neighbours. -/
theorem abs_round_div_sub_tdiv_le_one (m : Mode) : |m.round ((a : α) / b) - a.tdiv b| ≤ 1 := by
  obtain ⟨hlo, hhi⟩ := abs_lt.mp (abs_tmod_div_lt_one (α := α) hb)
  by_cases hm : m = .halfEven
  · subst hm
    rw [round_halfEven_div_eq_tdiv_add hb, add_sub_cancel_left]
    split_ifs
    · exact abs_round_window_le_one hlo hhi _
    · exact abs_round_window_le_one hlo hhi _
  · rw [round_div_eq_tdiv_add hb m hm, add_sub_cancel_left]
    exact abs_round_window_le_one hlo hhi m

/-! The integer tests of a rounding division, read on the fraction `r / b`. -/

theorem tmod_div_pos_iff : 0 < (a.tmod b : α) / b ↔ a.tmod b ≠ 0 ∧ (0 ≤ a ↔ 0 ≤ b) := by
  have hpos := tmod_nonneg_iff_of_nonneg (a := a) (b := b)
  have hneg := tmod_nonpos_of_nonpos (a := a) (b := b)
  rw [div_pos_iff, Int.cast_pos, Int.cast_pos, Int.cast_lt_zero, Int.cast_lt_zero]
  omega

theorem tmod_div_neg_iff : (a.tmod b : α) / b < 0 ↔ a.tmod b ≠ 0 ∧ ¬(0 ≤ a ↔ 0 ≤ b) := by
  have hpos := tmod_nonneg_iff_of_nonneg (a := a) (b := b)
  have hneg := tmod_nonpos_of_nonpos (a := a) (b := b)
  rw [div_neg_iff, Int.cast_pos, Int.cast_pos, Int.cast_lt_zero, Int.cast_lt_zero]
  omega

/-- Off an exact division, the sign of the quotient is the sign of the fraction. -/
theorem sign_mul_sign_of_tmod_ne_zero (hr : a.tmod b ≠ 0) :
    a.sign * b.sign = if 0 < (a.tmod b : α) / b then 1 else -1 := by
  have ha : a ≠ 0 := by
    rintro rfl
    exact hr (Int.zero_tmod b)
  by_cases hf : 0 < (a.tmod b : α) / b
  · rw [if_pos hf]
    rw [tmod_div_pos_iff hb] at hf
    rcases lt_or_gt_of_ne ha with ha | ha <;> rcases lt_or_gt_of_ne hb with hb' | hb' <;>
      simp only [Int.sign_eq_neg_one_of_neg, Int.sign_eq_one_of_pos, ha, hb'] <;> omega
  · rw [if_neg hf]
    rw [tmod_div_pos_iff hb] at hf
    rcases lt_or_gt_of_ne ha with ha | ha <;> rcases lt_or_gt_of_ne hb with hb' | hb' <;>
      simp only [Int.sign_eq_neg_one_of_neg, Int.sign_eq_one_of_pos, ha, hb'] <;> omega

theorem half_le_abs_tmod_div_iff :
    1 / 2 ≤ |(a.tmod b : α) / b| ↔ b.natAbs ≤ 2 * (a.tmod b).natAbs := by
  have hb' : (0 : α) < |(b : α)| := abs_pos.mpr (Int.cast_ne_zero.mpr hb)
  rw [abs_div, le_div_iff₀ hb', ← Int.cast_abs, ← Int.cast_abs, half_mul_le_iff,
    Int.abs_eq_natAbs, Int.abs_eq_natAbs]
  omega

theorem half_lt_abs_tmod_div_iff :
    1 / 2 < |(a.tmod b : α) / b| ↔ b.natAbs < 2 * (a.tmod b).natAbs := by
  have hb' : (0 : α) < |(b : α)| := abs_pos.mpr (Int.cast_ne_zero.mpr hb)
  rw [abs_div, lt_div_iff₀ hb', ← Int.cast_abs, ← Int.cast_abs, half_mul_lt_iff,
    Int.abs_eq_natAbs, Int.abs_eq_natAbs]
  omega

end TruncatedDivision

/-! ## Adding half the divisor before truncating

The fast way to round a division half away from zero: move the dividend away from zero by half
the divisor, then truncate. -/

section AddHalf

private theorem nat_add_half_div (A B : ℕ) (hB : 0 < B) :
    (A + B / 2) / B = A / B + if B ≤ 2 * (A % B) then 1 else 0 := by
  have hhalf : B / 2 < B := Nat.div_lt_self hB (by decide)
  rw [Nat.add_div hB, Nat.div_eq_of_lt hhalf, Nat.mod_eq_of_lt hhalf, add_zero]
  have hiff : B ≤ A % B + B / 2 ↔ B ≤ 2 * (A % B) := by omega
  simp only [hiff]

variable {a b : ℤ}

theorem tdiv_add_half_of_nonneg (ha : 0 ≤ a) (hb : b ≠ 0) :
    (a + (b.natAbs / 2 : ℕ)).tdiv b =
      a.tdiv b + if b.natAbs ≤ 2 * (a.tmod b).natAbs then b.sign else 0 := by
  obtain ⟨A, rfl⟩ := Int.eq_ofNat_of_zero_le ha
  have hB : 0 < b.natAbs := Int.natAbs_pos.mpr hb
  have hsum : (A : ℤ) + ((b.natAbs / 2 : ℕ) : ℤ) = ((A + b.natAbs / 2 : ℕ) : ℤ) := by push_cast; rfl
  have hmod : ((A : ℤ).tmod b).natAbs = A % b.natAbs := by
    rw [Int.natAbs_tmod, Int.natAbs_natCast]
  rw [hsum, hmod]
  rcases lt_or_gt_of_ne hb with hneg | hpos
  · -- `b = -B`: both quotients change sign
    obtain ⟨B, hBeq⟩ : ∃ B : ℕ, b = -(B : ℤ) := ⟨b.natAbs, by omega⟩
    subst hBeq
    simp only [Int.natAbs_neg, Int.natAbs_natCast, Int.tdiv_neg, ← Int.ofNat_tdiv,
      Int.sign_eq_neg_one_of_neg hneg] at hB ⊢
    rw [nat_add_half_div A B hB]
    split_ifs <;> push_cast <;> ring
  · obtain ⟨B, rfl⟩ := Int.eq_ofNat_of_zero_le hpos.le
    simp only [Int.natAbs_natCast, ← Int.ofNat_tdiv, Int.sign_eq_one_of_pos hpos] at hB ⊢
    rw [nat_add_half_div A B hB]
    split_ifs <;> push_cast <;> ring

theorem tdiv_sub_half_of_nonpos (ha : a ≤ 0) (hb : b ≠ 0) :
    (a - (b.natAbs / 2 : ℕ)).tdiv b =
      a.tdiv b - if b.natAbs ≤ 2 * (a.tmod b).natAbs then b.sign else 0 := by
  have h := tdiv_add_half_of_nonneg (Int.neg_nonneg_of_nonpos ha) hb
  rw [Int.neg_tdiv, Int.neg_tmod, Int.natAbs_neg] at h
  rw [show a - ((b.natAbs / 2 : ℕ) : ℤ) = -(-a + ((b.natAbs / 2 : ℕ) : ℤ)) by ring, Int.neg_tdiv, h]
  ring

end AddHalf

end Rounding
