import Mathlib

/-!
# Searching positions for the first one a predicate accepts

A sorted range searched for the first element a comparison accepts is, abstractly, a predicate
`q : Nat → Bool` on positions that never turns from `true` back to `false` (`Upward`), and the
answer is the first position where it holds, or the length when there is none (`IsFirst`).

* `upperBound` is the loop of `std::upper_bound` (halve the range, keep the half the middle
  element says holds the answer); `isFirst_upperBound` proves that it finds the first position.
* `isFirst_findIdx` relates `IsFirst` to `List.findIdx`.
* `isFirst_twoLevel`: with blocks of `b` positions, a first layer holding every `(b + 1)`-th
  position and a second one the `b` positions before each of those, searching the first layer and
  then the block it leads to finds the first position among `(b + 1) * b + b`.
-/

namespace Search

/-- `q` never turns from `true` back to `false` below `n`. -/
def Upward (q : Nat → Bool) (n : Nat) : Prop :=
  ∀ i j, i ≤ j → j < n → q i = true → q j = true

/-- `r` is the first position below `n` where `q` holds, or `n` when there is none. -/
def IsFirst (q : Nat → Bool) (n r : Nat) : Prop :=
  r ≤ n ∧ (∀ i < r, q i = false) ∧ (r < n → q r = true)

variable {q q' : Nat → Bool} {n r r' : Nat}

theorem IsFirst.unique (h : IsFirst q n r) (h' : IsFirst q n r') : r = r' := by
  obtain ⟨hr, hbefore, hat⟩ := h
  obtain ⟨hr', hbefore', hat'⟩ := h'
  by_contra hne
  rcases Nat.lt_or_gt_of_ne hne with hlt | hlt
  · have := hbefore' r hlt
    rw [hat (by omega)] at this
    contradiction
  · have := hbefore r' hlt
    rw [hat' (by omega)] at this
    contradiction

theorem IsFirst.congr (hq : ∀ i < n, q i = q' i) (h : IsFirst q n r) : IsFirst q' n r := by
  obtain ⟨hr, hbefore, hat⟩ := h
  refine ⟨hr, fun i hi => ?_, fun hrn => ?_⟩
  · rw [← hq i (by omega)]
    exact hbefore i hi
  · rw [← hq r hrn]
    exact hat hrn

/-- Where `q` holds at `n`, the first position below `n + 1` is the first below `n`. -/
theorem IsFirst.of_succ (h : IsFirst q (n + 1) r) (hn : q n = true) : IsFirst q n r := by
  obtain ⟨hr, hbefore, hat⟩ := h
  have hrn : r ≤ n := by
    by_contra hlt
    have hfail := hbefore n (by omega)
    rw [hn] at hfail
    contradiction
  exact ⟨hrn, hbefore, fun _ => hat (by omega)⟩

/-- Predicates that agree below `n ≤ m` find the same first position below `n`. -/
theorem IsFirst.min_eq {m : Nat} (h : IsFirst q n r) (h' : IsFirst q' m r') (hnm : n ≤ m)
    (hq : ∀ i < n, q' i = q i) : min r' n = r := by
  obtain ⟨hr, hbefore, hat⟩ := h
  rcases Nat.lt_or_ge r n with hlt | hge
  · -- `q` holds at `r`, so `q'` does too, and at no position before it
    have hfirst : IsFirst q' m r :=
      ⟨by omega, fun i hi => by rw [hq i (by omega)]; exact hbefore i hi,
        fun _ => by rw [hq r hlt]; exact hat hlt⟩
    have heq := hfirst.unique h'
    omega
  · -- `q` holds nowhere below `n`, so neither does `q'`
    have hrn : n ≤ r' := by
      by_contra hlt
      have hfail := hbefore r' (by omega)
      rw [← hq r' (by omega), h'.2.2 (by omega)] at hfail
      contradiction
    omega

theorem isFirst_findIdx {α : Type} (p : α → Bool) (xs : List α) (d : α) :
    IsFirst (fun i => p (xs.getD i d)) xs.length (xs.findIdx p) := by
  refine ⟨List.findIdx_le_length, fun i hi => ?_, fun hlt => ?_⟩
  · have hlen : i < xs.length := Nat.lt_of_lt_of_le hi List.findIdx_le_length
    simp only [List.getD_eq_getElem _ _ hlen]
    exact List.not_of_lt_findIdx hi
  · simp only [List.getD_eq_getElem _ _ hlt]
    exact List.findIdx_getElem

/-! ## `std::upper_bound` -/

/-- The loop of `std::upper_bound` over the positions `first, …, first + len - 1`, where `q i`
is the comparison `comp(value, *(begin + i))`. -/
def upperBound (q : Nat → Bool) (first len : Nat) : Nat :=
  if len > 0 then
    let half := len >>> 1
    let middle := first + half
    if q middle then upperBound q first half
    else upperBound q (middle + 1) (len - half - 1)
  else first
termination_by len
decreasing_by
  all_goals
    simp only [Nat.shiftRight_eq_div_pow, pow_one]
    omega

/-- What the loop of `std::upper_bound` keeps: the answer lies in `[first, first + len]`. -/
def Bracket (q : Nat → Bool) (n first len : Nat) : Prop :=
  first + len ≤ n ∧ (∀ i < first, q i = false) ∧ ∀ i, first + len ≤ i → i < n → q i = true

theorem bracket_init (q : Nat → Bool) (n : Nat) : Bracket q n 0 n :=
  ⟨by omega, fun _ h => absurd h (Nat.not_lt_zero _), fun _ h h' => absurd h' (by omega)⟩

theorem isFirst_of_bracket {first : Nat} (h : Bracket q n first 0) : IsFirst q n first :=
  ⟨by simpa using h.1, h.2.1, fun hlt => h.2.2 first (by omega) hlt⟩

/-- One step of the loop keeps the bracket: the half it drops cannot hold the answer. -/
theorem upperBound_isFirst_of_bracket (hq : Upward q n) {first len : Nat}
    (h : Bracket q n first len) : IsFirst q n (upperBound q first len) := by
  fun_induction upperBound q first len with
  | case1 first len hlen half middle hmid ih =>
    -- the middle holds, so does everything after it: the answer is in the lower half
    obtain ⟨hn, hbefore, hafter⟩ := h
    have hhalf : half = len / 2 := Nat.shiftRight_eq_div_pow len 1
    refine ih ⟨by omega, hbefore, fun i hi hin => ?_⟩
    rcases Nat.lt_or_ge i (first + len) with hlt | hge
    · exact hq middle i (by omega) hin hmid
    · exact hafter i hge hin
  | case2 first len hlen half middle hmid ih =>
    -- the middle fails, so does everything before it: the answer is in the upper half
    obtain ⟨hn, hbefore, hafter⟩ := h
    have hhalf : half = len / 2 := Nat.shiftRight_eq_div_pow len 1
    have hmid : q middle = false := by simpa using hmid
    refine ih ⟨by omega, fun i hi => ?_, fun i hi hin => hafter i (by omega) hin⟩
    rcases Nat.lt_or_ge i first with hlt | hge
    · exact hbefore i hlt
    · cases hqi : q i
      · rfl
      · rw [hq i middle (by omega) (by omega) hqi] at hmid
        contradiction
  | case3 first len hlen =>
    exact isFirst_of_bracket (by rwa [show len = 0 by omega] at h)

theorem isFirst_upperBound (hq : Upward q n) : IsFirst q n (upperBound q 0 n) :=
  upperBound_isFirst_of_bracket hq (bracket_init q n)

/-! ## Two layers of blocks -/

/-- A position below `(b + 1) * l0` lies at or before the last position of one of the first
`l0` blocks. -/
theorem exists_block_of_lt {b l0 i : Nat} (hi : i < (b + 1) * l0) :
    ∃ k < l0, i ≤ (b + 1) * k + b := by
  refine ⟨i / (b + 1), ?_, ?_⟩
  · rw [Nat.div_lt_iff_lt_mul (Nat.succ_pos b), Nat.mul_comm]
    exact hi
  · have hmod := Nat.mod_lt i (show b + 1 > 0 by omega)
    have hdiv := Nat.div_add_mod i (b + 1)
    omega

theorem isFirst_twoLevel {b l0 l1 : Nat} (hq : Upward q ((b + 1) * b + b))
    (h0 : IsFirst (fun k => q ((b + 1) * k + b)) b l0)
    (h1 : IsFirst (fun j => q ((b + 1) * l0 + j)) b l1) :
    IsFirst q ((b + 1) * b + b) ((b + 1) * l0 + l1) := by
  obtain ⟨hl0, hbefore0, hat0⟩ := h0
  obtain ⟨hl1, hbefore1, hat1⟩ := h1
  have hmul : (b + 1) * l0 ≤ (b + 1) * b := Nat.mul_le_mul_left _ hl0
  refine ⟨by omega, fun i hi => ?_, fun hlt => ?_⟩
  · rcases Nat.lt_or_ge i ((b + 1) * l0) with hlt | hge
    · -- before the block the first layer chose: the last position of an earlier block fails
      obtain ⟨k, hk, hik⟩ := exists_block_of_lt hlt
      have hkb : (b + 1) * k < (b + 1) * b := Nat.mul_lt_mul_of_pos_left (by omega) (by omega)
      have hfail : q ((b + 1) * k + b) = false := hbefore0 k hk
      cases hqi : q i
      · rfl
      · rw [hq i _ hik (by omega) hqi] at hfail
        contradiction
    · -- inside that block, before the position the second layer chose
      have hfail : q ((b + 1) * l0 + (i - (b + 1) * l0)) = false := hbefore1 _ (by omega)
      rwa [Nat.add_sub_cancel' hge] at hfail
  · rcases Nat.lt_or_ge l1 b with hl1b | hl1b
    · exact hat1 hl1b
    · -- every position of the block fails: the answer is the block's bound in the first layer
      have hl0b : l0 < b := by
        by_contra hge
        have : (b + 1) * b ≤ (b + 1) * l0 := Nat.mul_le_mul_left _ (by omega)
        omega
      rw [show l1 = b by omega]
      exact hat0 hl0b

end Search
