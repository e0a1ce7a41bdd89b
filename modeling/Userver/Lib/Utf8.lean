import Mathlib

/-!
# UTF-8 encodings of Unicode scalar values

A `Char` is a Unicode scalar value: a code point up to `0x10FFFF` that is not a surrogate
(`0xD800..0xDFFF`), and `String.utf8EncodeChar` is its shortest-form UTF-8 encoding.  This module
takes the bytes of an encoding as numbers and proves:

* `map_toNat_utf8EncodeChar`: the bytes of `String.utf8EncodeChar c` are `encodeNat c.toNat`;
* `exists_encodeNat_iff_row`: a sequence of bytes encodes a scalar value exactly when it is a row
  of Table 3-7 of the Unicode Standard, "Well-Formed UTF-8 Byte Sequences" (`Row`);
* `isTail_of_row`, `lead_of_row`: the bytes after the first one of a row are continuation bytes
  (`10xxxxxx`), and the first byte of a row of two or more bytes is a lead byte (`11xxxxxx`).
-/

namespace Utf8

/-- A continuation byte, `0x80..0xBF`. -/
def IsTail (b : Nat) : Prop := 0x80 ≤ b ∧ b ≤ 0xBF

/-- The shortest-form encoding of the code point `v`, as numbers. -/
def encodeNat (v : Nat) : List Nat :=
  if v ≤ 0x7F then [v]
  else if v ≤ 0x7FF then [0xC0 + v / 0x40, 0x80 + v % 0x40]
  else if v ≤ 0xFFFF then [0xE0 + v / 0x1000, 0x80 + v / 0x40 % 0x40, 0x80 + v % 0x40]
  else [0xF0 + v / 0x40000, 0x80 + v / 0x1000 % 0x40, 0x80 + v / 0x40 % 0x40, 0x80 + v % 0x40]

/-- Table 3-7, Well-Formed UTF-8 Byte Sequences: one row for each range of first bytes. -/
def Row : List Nat → Prop
  | [a] => a ≤ 0x7F
  | [a, b] => 0xC2 ≤ a ∧ a ≤ 0xDF ∧ IsTail b
  | [a, b, c] =>
    (a = 0xE0 ∧ 0xA0 ≤ b ∧ b ≤ 0xBF ∨ 0xE1 ≤ a ∧ a ≤ 0xEC ∧ IsTail b ∨
      a = 0xED ∧ 0x80 ≤ b ∧ b ≤ 0x9F ∨ 0xEE ≤ a ∧ a ≤ 0xEF ∧ IsTail b) ∧ IsTail c
  | [a, b, c, d] =>
    (a = 0xF0 ∧ 0x90 ≤ b ∧ b ≤ 0xBF ∨ 0xF1 ≤ a ∧ a ≤ 0xF3 ∧ IsTail b ∨
      a = 0xF4 ∧ 0x80 ≤ b ∧ b ≤ 0x8F) ∧ IsTail c ∧ IsTail d
  | _ => False

theorem toNat_isValidChar (c : Char) : c.toNat < 0xD800 ∨ 0xDFFF < c.toNat ∧ c.toNat < 0x110000 :=
  c.valid

theorem toNat_ofNat_of_isValidChar {n : Nat} (h : n < 0xD800 ∨ 0xDFFF < n ∧ n < 0x110000) :
    (Char.ofNat n).toNat = n := by
  rw [Char.toNat_ofNat, if_pos h]

theorem map_toNat_utf8EncodeChar (c : Char) :
    (String.utf8EncodeChar c).map UInt8.toNat = encodeNat c.toNat := by
  -- `Char.toNat` is `c.val.toNat`, which `utf8EncodeChar` reads
  have hv : c.val.toNat < 0xD800 ∨ 0xDFFF < c.val.toNat ∧ c.val.toNat < 0x110000 := c.valid
  unfold String.utf8EncodeChar encodeNat Char.toNat
  dsimp only
  split_ifs <;> simp only [List.map_cons, List.map_nil, UInt8.toNat_ofNat', List.cons.injEq,
    and_true] <;> omega

/-- Every encoding is a row of the table: the ranges of its first two bytes rule out the overlong
forms and the surrogates. -/
theorem row_encodeNat (c : Char) : Row (encodeNat c.toNat) := by
  have hv := toNat_isValidChar c
  unfold encodeNat
  split_ifs <;> simp only [Row, IsTail] <;> omega

/-! ## Decoding a row -/

theorem exists_encodeNat_of_row : ∀ {bs : List Nat}, Row bs → ∃ c : Char, encodeNat c.toNat = bs
  | [a], h => by
    refine ⟨Char.ofNat a, ?_⟩
    simp only [Row] at h
    rw [toNat_ofNat_of_isValidChar (by omega), encodeNat, if_pos h]
  | [a, b], h => by
    simp only [Row, IsTail] at h
    refine ⟨Char.ofNat ((a - 0xC0) * 0x40 + (b - 0x80)), ?_⟩
    rw [toNat_ofNat_of_isValidChar (by omega)]
    unfold encodeNat
    split_ifs <;> simp only [List.cons.injEq, and_true] <;> omega
  | [a, b, c], h => by
    simp only [Row, IsTail] at h
    refine ⟨Char.ofNat ((a - 0xE0) * 0x1000 + (b - 0x80) * 0x40 + (c - 0x80)), ?_⟩
    rw [toNat_ofNat_of_isValidChar (by omega)]
    unfold encodeNat
    split_ifs <;> simp only [List.cons.injEq, and_true] <;> omega
  | [a, b, c, d], h => by
    simp only [Row, IsTail] at h
    refine ⟨Char.ofNat ((a - 0xF0) * 0x40000 + (b - 0x80) * 0x1000 + (c - 0x80) * 0x40 + (d - 0x80)),
      ?_⟩
    rw [toNat_ofNat_of_isValidChar (by omega)]
    unfold encodeNat
    split_ifs <;> simp only [List.cons.injEq, and_true] <;> omega
  | [], h => absurd h id
  | _ :: _ :: _ :: _ :: _ :: _, h => absurd h id

theorem exists_encodeNat_iff_row (bs : List Nat) : (∃ c : Char, encodeNat c.toNat = bs) ↔ Row bs := by
  constructor
  · rintro ⟨c, rfl⟩
    exact row_encodeNat c
  · exact exists_encodeNat_of_row

/-- A byte sequence that a row of the table accepts is the encoding of a character. -/
theorem exists_utf8EncodeChar_of_row {bs : List UInt8} (h : Row (bs.map UInt8.toNat)) :
    ∃ c : Char, String.utf8EncodeChar c = bs := by
  obtain ⟨c, hc⟩ := exists_encodeNat_of_row h
  refine ⟨c, List.map_injective_iff.2 (fun _ _ h => UInt8.toNat_inj.1 h) ?_⟩
  rw [map_toNat_utf8EncodeChar, hc]

/-! ## Lead and continuation bytes -/

/-- The bytes after the first one of a row are continuation bytes. -/
theorem isTail_of_row : ∀ {a : Nat} {bs : List Nat}, Row (a :: bs) → ∀ b ∈ bs, IsTail b
  | _, [], _ => by simp
  | _, [_], h => by simp only [Row] at h; simpa using h.2.2
  | _, [_, _], h => by
    simp only [Row, IsTail] at h
    simp only [List.mem_cons, List.not_mem_nil, or_false, forall_eq_or_imp, forall_eq, IsTail]
    omega
  | _, [_, _, _], h => by
    simp only [Row, IsTail] at h
    simp only [List.mem_cons, List.not_mem_nil, or_false, forall_eq_or_imp, forall_eq, IsTail]
    omega
  | _, _ :: _ :: _ :: _ :: _, h => absurd h id

/-- The first byte of a row of two or more bytes is `0xC2..0xF4`: never a continuation byte. -/
theorem lead_of_row {a b : Nat} {bs : List Nat} (h : Row (a :: b :: bs)) : 0xC2 ≤ a ∧ a ≤ 0xF4 := by
  match bs, h with
  | [], h => simp only [Row, IsTail] at h; omega
  | [_], h => simp only [Row, IsTail] at h; omega
  | [_, _], h => simp only [Row, IsTail] at h; omega
  | _ :: _ :: _ :: _, h => exact absurd h id

/-- A row of one byte is an ASCII byte. -/
theorem lt_of_row_singleton {a : Nat} (h : Row [a]) : a < 0x80 := by
  simp only [Row] at h
  omega

set_option maxRecDepth 4096 in
/-- A continuation byte is `10xxxxxx`. -/
theorem and_0xC0_of_isTail {b : Nat} (h : IsTail b) : b &&& 0xC0 = 0x80 := by
  have hall : ∀ n < 0xC0, 0x80 ≤ n → n &&& 0xC0 = 0x80 := by decide
  exact hall b (by unfold IsTail at h; omega) h.1

set_option maxRecDepth 4096 in
/-- A lead byte is `11xxxxxx`. -/
theorem and_0xC0_of_lead {b : Nat} (h : 0xC0 ≤ b) (h' : b < 0x100) : b &&& 0xC0 = 0xC0 := by
  have hall : ∀ n < 0x100, 0xC0 ≤ n → n &&& 0xC0 = 0xC0 := by decide
  exact hall b h' h

set_option maxRecDepth 4096 in
/-- An ASCII byte is `0xxxxxxx`, every other byte `1xxxxxxx`. -/
theorem and_0x80_eq_zero_iff {b : Nat} (h : b < 0x100) : b &&& 0x80 = 0 ↔ b < 0x80 := by
  have hall : ∀ n < 0x100, (n &&& 0x80 = 0 ↔ n < 0x80) := by decide
  exact hall b h

end Utf8
