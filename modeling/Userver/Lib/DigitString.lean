import Mathlib

/-!
# Decimal digit strings

Digit lists as `Nat.toDigits 10` prints them, zero-padded on the left with `List.leftpad`, and
what a scanner reading them back needs: every character is a digit, a positive number does not
start with `'0'`, the value `Nat.ofDigitChars` reads back, the length against powers of ten, and
how many zeros a padded string starts with.
-/

namespace DigitString

/-- A list of decimal digit characters. -/
def AllDigits (l : List Char) : Prop := ∀ c ∈ l, c.isDigit = true

/-- The value of a digit character. -/
def val (c : Char) : Nat := c.toNat - '0'.toNat

theorem allDigits_nil : AllDigits [] := by simp [AllDigits]

theorem allDigits_cons {c : Char} {l : List Char} :
    AllDigits (c :: l) ↔ c.isDigit = true ∧ AllDigits l := by
  simp [AllDigits]

theorem allDigits_append {l m : List Char} : AllDigits (l ++ m) ↔ AllDigits l ∧ AllDigits m := by
  simp only [AllDigits, List.mem_append]
  exact ⟨fun h => ⟨fun c hc => h c (.inl hc), fun c hc => h c (.inr hc)⟩,
    fun h c hc => hc.elim (h.1 c) (h.2 c)⟩

theorem allDigits_replicate_zero (n : Nat) : AllDigits (List.replicate n '0') := by
  intro c hc
  rw [List.eq_of_mem_replicate hc]
  rfl

theorem allDigits_toDigits (n : Nat) : AllDigits (Nat.toDigits 10 n) :=
  fun _ hc => Nat.isDigit_of_mem_toDigits (by decide) (by decide) hc

theorem allDigits_leftpad {l : List Char} (k : Nat) (h : AllDigits l) :
    AllDigits (l.leftpad k '0') :=
  allDigits_append.2 ⟨allDigits_replicate_zero _, h⟩

theorem isDigit_iff {c : Char} : c.isDigit = true ↔ 48 ≤ c.toNat ∧ c.toNat ≤ 57 :=
  Char.isDigit_iff_toNat

theorem val_lt_ten {c : Char} (h : c.isDigit = true) : val c < 10 := by
  have := isDigit_iff.1 h
  simp only [val, show '0'.toNat = 48 from rfl]
  omega

theorem val_eq_zero {c : Char} (h : c.isDigit = true) : val c = 0 ↔ c = '0' := by
  have := isDigit_iff.1 h
  simp only [val, show '0'.toNat = 48 from rfl]
  constructor
  · intro hv
    exact Char.toNat_inj.1 (by rw [show '0'.toNat = 48 from rfl]; omega)
  · rintro rfl
    rfl

theorem ofDigitChars_cons_val (c : Char) (cs : List Char) (x : Nat) :
    Nat.ofDigitChars 10 (c :: cs) x = Nat.ofDigitChars 10 cs (10 * x + val c) := by
  rw [Nat.ofDigitChars_cons]
  rfl

theorem ofDigitChars_lt {l : List Char} (h : AllDigits l) (x : Nat) :
    Nat.ofDigitChars 10 l x < 10 ^ l.length * (x + 1) := by
  induction l generalizing x with
  | nil => simp
  | cons c cs ih =>
    obtain ⟨hc, hcs⟩ := allDigits_cons.1 h
    rw [ofDigitChars_cons_val]
    have hv := val_lt_ten hc
    have := ih hcs (10 * x + val c)
    calc Nat.ofDigitChars 10 cs (10 * x + val c)
        < 10 ^ cs.length * (10 * x + val c + 1) := this
      _ ≤ 10 ^ cs.length * (10 * (x + 1)) := Nat.mul_le_mul_left _ (by omega)
      _ = 10 ^ (c :: cs).length * (x + 1) := by
        rw [List.length_cons, Nat.pow_succ]; ring

theorem length_toDigits_le {n k : Nat} (hk : 0 < k) (h : n < 10 ^ k) :
    (Nat.toDigits 10 n).length ≤ k :=
  (Nat.length_toDigits_le_iff (by decide) hk).2 h

theorem length_leftpad {l : List Char} {k : Nat} (h : l.length ≤ k) :
    (l.leftpad k '0').length = k := by
  simp [List.leftpad]
  omega

theorem ofDigitChars_leftpad (l : List Char) (k : Nat) :
    Nat.ofDigitChars 10 (l.leftpad k '0') 0 = Nat.ofDigitChars 10 l 0 := by
  simp [List.leftpad, Nat.ofDigitChars_append]

theorem ofDigitChars_append_digit (l : List Char) (c : Char) (x : Nat) :
    Nat.ofDigitChars 10 (l ++ [c]) x = 10 * Nat.ofDigitChars 10 l x + val c := by
  rw [Nat.ofDigitChars_append, ofDigitChars_cons_val, Nat.ofDigitChars_nil]

/-- One more digit keeps a number below the next power of ten. -/
theorem append_digit_lt {v d b : Nat} (hv : v < 10 ^ b) (hd : d < 10) : 10 * v + d < 10 ^ (b + 1) := by
  rw [Nat.pow_succ]
  omega

/-- Every character list is a run of zeros followed by a part that does not start with `'0'`. -/
theorem eq_replicate_zero_append (l : List Char) :
    ∃ z r, l = List.replicate z '0' ++ r ∧ ∀ c cs, r = c :: cs → c ≠ '0' := by
  induction l with
  | nil => exact ⟨0, [], rfl, fun _ _ h => nomatch h⟩
  | cons c cs ih =>
    by_cases hc : c = '0'
    · obtain ⟨z, r, rfl, hr⟩ := ih
      exact ⟨z + 1, r, by rw [hc]; rfl, hr⟩
    · exact ⟨0, c :: cs, rfl, fun _ _ h => by cases h; exact hc⟩

@[simp] theorem ofDigitChars_replicate_zero_append (z : Nat) (r : List Char) :
    Nat.ofDigitChars 10 (List.replicate z '0' ++ r) 0 = Nat.ofDigitChars 10 r 0 := by
  rw [Nat.ofDigitChars_append, Nat.ofDigitChars_replicate_zero, Nat.mul_zero]

/-- A digit string that starts with a non-zero digit is at least `10^(length - 1)`. -/
theorem pow_le_ofDigitChars_cons {c : Char} (cs : List Char) (hc : c.isDigit = true)
    (h0 : c ≠ '0') : 10 ^ cs.length ≤ Nat.ofDigitChars 10 (c :: cs) 0 := by
  have hv : 1 ≤ val c := Nat.pos_of_ne_zero (fun h => h0 ((val_eq_zero hc).1 h))
  rw [ofDigitChars_cons_val, Nat.ofDigitChars_eq_ofDigitChars_zero]
  calc 10 ^ cs.length ≤ 10 ^ cs.length * (10 * 0 + val c) := Nat.le_mul_of_pos_right _ (by omega)
    _ ≤ _ := Nat.le_add_right _ _

/-- A digit string reads as zero exactly when all its digits are zeros. -/
theorem ofDigitChars_eq_zero_iff {l : List Char} (h : AllDigits l) :
    Nat.ofDigitChars 10 l 0 = 0 ↔ ∀ c ∈ l, c = '0' := by
  constructor
  · intro h0
    obtain ⟨z, r, rfl, hr⟩ := eq_replicate_zero_append l
    cases r with
    | nil => exact fun c hc => List.eq_of_mem_replicate (by simpa using hc)
    | cons c cs =>
      have hc := (allDigits_cons.1 (allDigits_append.1 h).2).1
      have := pow_le_ofDigitChars_cons cs hc (hr c cs rfl)
      rw [ofDigitChars_replicate_zero_append] at h0
      have : 0 < 10 ^ cs.length := by positivity
      omega
  · intro h0
    rw [List.eq_replicate_iff.2 ⟨rfl, h0⟩, Nat.ofDigitChars_replicate_zero, Nat.mul_zero]

end DigitString
