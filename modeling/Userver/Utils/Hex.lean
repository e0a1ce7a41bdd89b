import Userver.Lib.Lanes
import Userver.Lib.CType

/-!
# Hexadecimal encoding

`hex.cpp` writes each byte as two digits of `kXdigits` (`ToHex`, `ToHexBuffer`) and reads pairs
of digits back (`FromHex`), accepting both letter cases.  Where `__SSSE3__` is defined,
`ToHexBuffer` turns eight bytes at a time into sixteen digits: it shifts the eight bytes, as one
64-bit word, four bits right, interleaves that word's bytes with the original ones, masks each to
its low four bits and looks them up with a byte shuffle.  The model takes `__SSSE3__` as the flag
`ssse3`; the scalar tail shifts each byte as a signed `char`.

* `toHexBuffer_eq`: both paths write `hexDigits` of each byte, so the digits do not depend on the
  flag, on the length modulo eight or on the byte values.
* `fromHex_eq`: `FromHex` reads the leading complete pairs of digits and returns their length.
* `hex_round_trip`: what `ToHex` writes, `FromHex` reads back whole and `IsHexData` accepts.
-/

namespace Userver

namespace Utils

namespace Encoding

open Lanes Codec CType

/-! ## Digits -/

/-- `kXdigits`. -/
def kXdigits : List UInt8 := ascii "0123456789abcdef"

/-- `IsXDigit`: the labels '0'..'9', 'a'..'f' and 'A'..'F' of its `switch`. -/
def isXDigit (xDigit : UInt8) : Bool :=
  (48 ≤ xDigit && xDigit ≤ 57) || (97 ≤ xDigit && xDigit ≤ 102) || (65 ≤ xDigit && xDigit ≤ 70)

/-- `GetXDigitValue`: the value of each label of its `switch`, and `255` by default. -/
def getXDigitValue (xDigit : UInt8) : UInt8 :=
  if 48 ≤ xDigit ∧ xDigit ≤ 57 then xDigit - 48
  else if 97 ≤ xDigit ∧ xDigit ≤ 102 then xDigit - 87
  else if 65 ≤ xDigit ∧ xDigit ≤ 70 then xDigit - 55
  else 255

/-- `ToHexChar(num)`: the digit of `num`, with the range check the loops of `ToHexBuffer` skip. -/
def toHexChar (num : Int) : Except String UInt8 :=
  if num ≥ 16 ∨ num < 0 then .error (toString num ++ " is not convertible to hex char")
  else .ok (kXdigits.getD num.toNat 0)

/-- The digit `kXdigits[i]`. -/
def xdigit (i : UInt8) : UInt8 := kXdigits.getD i.toNat 0

/-- The two digits of a byte: its high and its low four bits. -/
def hexDigits (b : UInt8) : List UInt8 := [xdigit (b >>> 4), xdigit (b &&& 15)]

/-! ## `ToHexBuffer` -/

/-- `kDigitsMask`: the table `_mm_shuffle_epi8` looks digits up in. -/
def kDigitsMask : List UInt8 := ascii "0123456789abcdef"

/-- One byte of the scalar loop: `value` is a `char`, shifted as a signed number. -/
def scalarDigits (b : UInt8) : List UInt8 :=
  let value := b.toInt8
  [xdigit ((value >>> 4) &&& 0xf).toUInt8, xdigit (value &&& 0xf).toUInt8]

/-- `_mm_shuffle_epi8(table, idx)`: each lane of `idx` picks the lane of `table` its low four
bits name, or zero when its top bit is set. -/
def shuffleEpi8 (table idx : List UInt8) : List UInt8 :=
  idx.map fun i => if i &&& 0x80 ≠ 0 then 0 else table.getD (i &&& 0x0f).toNat 0

/-- `_mm_unpacklo_epi8(a, b)`: the low eight lanes of `a` and `b`, interleaved. -/
def unpackloEpi8 (a b : List UInt8) : List UInt8 :=
  (List.zip (a.take 8) (b.take 8)).flatMap fun (x, y) => [x, y]

/-- One iteration of the SSSE3 loop: the sixteen digits `_mm_storeu_si128` writes for eight
bytes. -/
def ssse3Digits (eightBytes : List UInt8) : List UInt8 :=
  let eightBytesOfData := loadWord eightBytes
  let interleavingHiLo :=
    (unpackloEpi8 (storeWord (eightBytesOfData >>> 4)) eightBytes).map (· &&& 0xf)
  shuffleEpi8 kDigitsMask interleavingHiLo

/-- The scalar loop `while (first != last)`. -/
def scalarLoop (input : List UInt8) : List UInt8 := input.flatMap scalarDigits

/-- The SSSE3 loop `while (last - first >= 8)`, then the scalar loop. -/
def ssse3Loop : List UInt8 → List UInt8
  | b0 :: b1 :: b2 :: b3 :: b4 :: b5 :: b6 :: b7 :: rest =>
    ssse3Digits [b0, b1, b2, b3, b4, b5, b6, b7] ++ ssse3Loop rest
  | tail => scalarLoop tail

/-- `ToHexBuffer(input, out)`: the digits written from the start of `out`. -/
def toHexBuffer (ssse3 : Bool) (input : List UInt8) : List UInt8 :=
  if ssse3 then ssse3Loop input else scalarLoop input

/-- `LengthInHexForm`. -/
def lengthInHexForm (size : Nat) : Nat := size * 2

/-- `ToHex(input, out)`: `out` resized to `LengthInHexForm` and filled by `ToHexBuffer`. -/
def toHex (ssse3 : Bool) (input : List UInt8) : List UInt8 := toHexBuffer ssse3 input

/-! ## Reading digits back -/

/-- `GetHexPart(encoded)`: the longest prefix of digits, less one digit when it is odd. -/
def getHexPart (encoded : List UInt8) : List UInt8 :=
  let length := (encoded.takeWhile isXDigit).length
  let length := if length % 2 = 1 then length - 1 else length
  encoded.take length

/-- `IsHexData(encoded)`. -/
def isHexData (encoded : List UInt8) : Bool :=
  if encoded.length % 2 ≠ 0 then false else (getHexPart encoded).length == encoded.length

/-- The loop of `FromHex` over pairs: the bytes pushed and the digits read. -/
def fromHexLoop : List UInt8 → List UInt8 × Nat
  | a :: rest =>
    if !isXDigit a then ([], 0)
    else
      match rest with
      | [] => ([], 0)
      | b :: rest =>
        if !isXDigit b then ([], 0)
        else
          let r := fromHexLoop rest
          ((getXDigitValue a <<< 4 ||| getXDigitValue b) :: r.1, r.2 + 2)
  | [] => ([], 0)

/-- `FromHex(encoded, out)`: `out` with the decoded bytes pushed, and the digits read. -/
def fromHex (encoded out : List UInt8) : List UInt8 × Nat :=
  let r := fromHexLoop encoded
  (out ++ r.1, r.2)

/-- `FromHexUpperBound(size)`. -/
def fromHexUpperBound (size : Nat) : Nat := size / 2

/-- The bytes of a string of pairs of digits, as a reader of hexadecimal means them. -/
def decodePairs : List UInt8 → List UInt8
  | a :: b :: rest => (16 * getXDigitValue a + getXDigitValue b) :: decodePairs rest
  | _ => []

/-! ## The digits each byte is written as -/

section Digits

theorem length_kXdigits : kXdigits.length = 16 := by decide

set_option maxRecDepth 4096 in
theorem isXDigit_of_mem_kXdigits : ∀ d ∈ kXdigits, isXDigit d = true := by decide

set_option maxRecDepth 4096 in
theorem nibbles_lt (b : UInt8) : b >>> 4 < 16 ∧ b &&& 15 < 16 := by
  revert b; decide

theorem xdigit_mem {i : UInt8} (h : i < 16) : xdigit i ∈ kXdigits := by
  have hlen : i.toNat < kXdigits.length := by
    rw [length_kXdigits]
    exact h
  rw [xdigit, List.getD_eq_getElem _ _ hlen]
  exact List.getElem_mem hlen

theorem hexDigits_mem (b : UInt8) : ∀ d ∈ hexDigits b, d ∈ kXdigits := by
  simp only [hexDigits, List.mem_cons, List.not_mem_nil, or_false]
  rintro d (rfl | rfl)
  exacts [xdigit_mem (nibbles_lt b).1, xdigit_mem (nibbles_lt b).2]

set_option maxRecDepth 4096 in
/-- The scalar loop shifts a signed `char`; its sign bits are masked away. -/
theorem scalarDigits_eq (b : UInt8) : scalarDigits b = hexDigits b := by
  revert b; decide

end Digits

/-! ## The SSSE3 block -/

section Lanes

set_option maxRecDepth 4096 in
theorem lane_of_lt : ∀ i : UInt8, i < 16 → i &&& 0x80 = 0 ∧ i &&& 0x0f = i := by
  decide

theorem unpackloEpi8_of_length {a b : List UInt8} (ha : a.length ≤ 8) (hb : b.length ≤ 8) :
    unpackloEpi8 a b = (List.zip a b).flatMap fun (x, y) => [x, y] := by
  rw [unpackloEpi8, List.take_of_length_le ha, List.take_of_length_le hb]

theorem map_interleave (f : UInt8 → UInt8) (a b : List UInt8) :
    ((List.zip a b).flatMap fun (x, y) => [x, y]).map f =
      (List.zip (a.map f) (b.map f)).flatMap fun (x, y) => [x, y] := by
  simp [List.map_flatMap, List.zip_map, List.flatMap_map]

/-- With every index below sixteen the shuffle is a table lookup. -/
theorem shuffleEpi8_of_lt {idx : List UInt8} (h : ∀ i ∈ idx, i < 16) (table : List UInt8) :
    shuffleEpi8 table idx = idx.map fun i => table.getD i.toNat 0 := by
  refine List.map_congr_left fun i hi => ?_
  obtain ⟨htop, hlow⟩ := lane_of_lt i (h i hi)
  simp [htop, hlow]

theorem storeWord_shiftRight_four {bs : List UInt8} (h : bs.length = 8) :
    storeWord (loadWord bs >>> 4) = leBytes bs.length (leValue bs / 16) := by
  rw [storeWord, h, UInt64.toNat_shiftRight, toNat_loadWord h.le]
  simp [Nat.shiftRight_eq_div_pow]

/-- One iteration of the SSSE3 loop writes the digits of its eight bytes. -/
theorem ssse3Digits_eq {bs : List UInt8} (h : bs.length = 8) :
    ssse3Digits bs = bs.flatMap hexDigits := by
  -- The bits a byte receives from its neighbour in the shifted word are masked away.
  have hhi : (storeWord (loadWord bs >>> 4)).map (· &&& (15 : UInt8)) =
      bs.map (· >>> (4 : UInt8)) := by
    rw [storeWord_shiftRight_four h]
    exact leBytes_div_sixteen bs
  have hlen : (storeWord (loadWord bs >>> 4)).length = 8 := length_leBytes _ _
  have hidx : (unpackloEpi8 (storeWord (loadWord bs >>> 4)) bs).map (· &&& 0xf) =
      bs.flatMap fun b : UInt8 => [b >>> 4, b &&& 15] := by
    rw [unpackloEpi8_of_length hlen.le h.le, map_interleave, hhi, List.zip_map']
    simp [List.flatMap_map]
  have hlt : ∀ i ∈ bs.flatMap (fun b : UInt8 => [b >>> 4, b &&& 15]), i < 16 := by
    simp only [List.mem_flatMap, List.mem_cons, List.not_mem_nil, or_false]
    rintro i ⟨b, -, rfl | rfl⟩
    exacts [(nibbles_lt b).1, (nibbles_lt b).2]
  rw [ssse3Digits, hidx, shuffleEpi8_of_lt hlt, List.map_flatMap]
  rfl

end Lanes

/-! ## `ToHexBuffer` and `ToHex` -/

section ToHex

theorem scalarLoop_eq (input : List UInt8) : scalarLoop input = input.flatMap hexDigits := by
  simp only [scalarLoop, funext scalarDigits_eq]

theorem ssse3Loop_eq (input : List UInt8) : ssse3Loop input = input.flatMap hexDigits := by
  fun_induction ssse3Loop input with
  | case1 b0 b1 b2 b3 b4 b5 b6 b7 rest ih =>
    rw [ssse3Digits_eq rfl, ih]
    rfl
  | case2 tail => exact scalarLoop_eq tail

/-- Both paths of `ToHexBuffer` write the digits of each byte in turn. -/
theorem toHexBuffer_eq (ssse3 : Bool) (input : List UInt8) :
    toHexBuffer ssse3 input = input.flatMap hexDigits := by
  cases ssse3
  · exact scalarLoop_eq input
  · exact ssse3Loop_eq input

theorem length_flatMap_hexDigits (input : List UInt8) :
    (input.flatMap hexDigits).length = lengthInHexForm input.length := by
  induction input with
  | nil => rfl
  | cons b rest ih =>
    rw [List.flatMap_cons, List.length_append, ih]
    simp [hexDigits, lengthInHexForm]
    omega

theorem mem_toHex {ssse3 : Bool} {input : List UInt8} :
    ∀ d ∈ toHex ssse3 input, d ∈ kXdigits := by
  rw [toHex, toHexBuffer_eq]
  simp only [List.mem_flatMap]
  rintro d ⟨b, -, hd⟩
  exact hexDigits_mem b d hd

end ToHex

/-! ## `FromHex`, `GetHexPart` and `IsHexData` -/

section FromHex

set_option maxRecDepth 4096 in
theorem getXDigitValue_lt : ∀ x : UInt8, isXDigit x = true → getXDigitValue x < 16 := by
  decide

set_option maxRecDepth 4096 in
theorem xdigit_nibbles (b : UInt8) :
    (16 : UInt8) * getXDigitValue (xdigit (b >>> 4)) + getXDigitValue (xdigit (b &&& 15)) = b := by
  revert b; decide

/-- The byte `FromHex` pushes: with a low digit the `|` is an addition. -/
theorem shiftLeft_four_or {x y : UInt8} (hy : y < 16) : x <<< 4 ||| y = 16 * x + y := by
  apply UInt8.toNat_inj.1
  have hy' : y.toNat < 2 ^ 4 := hy
  have hx : x.toNat < 256 := x.toNat_lt
  have hhigh : (x <<< 4).toNat = 2 ^ 4 * (x.toNat % 16) := by
    rw [UInt8.toNat_shiftLeft, Nat.shiftLeft_eq]
    simp
    omega
  rw [UInt8.toNat_or, hhigh, ← Nat.two_pow_add_eq_or_of_lt hy']
  simp
  omega

theorem getHexPart_eq_take (e : List UInt8) :
    getHexPart e = e.take (2 * ((e.takeWhile isXDigit).length / 2)) := by
  rw [getHexPart]
  congr 1
  split <;> omega

theorem length_getHexPart (e : List UInt8) :
    (getHexPart e).length = 2 * ((e.takeWhile isXDigit).length / 2) := by
  have h : (e.takeWhile isXDigit).length ≤ e.length := (List.takeWhile_prefix isXDigit).length_le
  rw [getHexPart_eq_take, List.length_take]
  omega

theorem getHexPart_cons_cons {a b : UInt8} (ha : isXDigit a = true) (hb : isXDigit b = true)
    (rest : List UInt8) : getHexPart (a :: b :: rest) = a :: b :: getHexPart rest := by
  rw [getHexPart_eq_take, getHexPart_eq_take, List.takeWhile_cons_of_pos (by simpa using ha),
    List.takeWhile_cons_of_pos (by simpa using hb)]
  simp only [List.length_cons]
  rw [show 2 * ((_ + 1 + 1) / 2) = 2 * ((rest.takeWhile isXDigit).length / 2) + 1 + 1 by omega]
  rfl

theorem getHexPart_of_digits {e : List UInt8} (h : ∀ x ∈ e, isXDigit x = true)
    (heven : e.length % 2 = 0) : getHexPart e = e := by
  rw [getHexPart_eq_take, List.takeWhile_eq_self_iff.2 h]
  exact List.take_of_length_le (by omega)

/-- The loop of `FromHex` reads the part `GetHexPart` delimits, pair by pair. -/
theorem fromHexLoop_eq (e : List UInt8) :
    fromHexLoop e = (decodePairs (getHexPart e), (getHexPart e).length) := by
  fun_induction fromHexLoop e with
  | case1 a rest ha =>
    -- `a` is not a digit: nothing is read
    have ha : isXDigit a = false := by simpa using ha
    simp [getHexPart, ha, decodePairs]
  | case2 a ha =>
    -- a lone trailing digit is dropped
    have ha : isXDigit a = true := by simpa using ha
    simp [getHexPart, ha, decodePairs]
  | case3 a ha b rest hb =>
    have ha : isXDigit a = true := by simpa using ha
    have hb : isXDigit b = false := by simpa using hb
    simp [getHexPart, ha, hb, decodePairs]
  | case4 a ha b rest hb r ih =>
    have ha : isXDigit a = true := by simpa using ha
    have hb : isXDigit b = true := by simpa using hb
    simp only [r, ih, getHexPart_cons_cons ha hb, decodePairs, List.length_cons,
      shiftLeft_four_or (getXDigitValue_lt b hb)]
  | case5 => rfl

theorem fromHex_eq (e out : List UInt8) :
    fromHex e out = (out ++ decodePairs (getHexPart e), (getHexPart e).length) := by
  rw [fromHex, fromHexLoop_eq]

theorem decodePairs_flatMap_hexDigits (s : List UInt8) : decodePairs (s.flatMap hexDigits) = s := by
  induction s with
  | nil => rfl
  | cons b rest ih =>
    rw [List.flatMap_cons, hexDigits, List.cons_append, List.cons_append, List.nil_append,
      decodePairs, ih, xdigit_nibbles]

theorem getHexPart_toHex (ssse3 : Bool) (s : List UInt8) :
    getHexPart (toHex ssse3 s) = toHex ssse3 s := by
  apply getHexPart_of_digits (fun d hd => isXDigit_of_mem_kXdigits d (mem_toHex d hd))
  rw [toHex, toHexBuffer_eq, length_flatMap_hexDigits, lengthInHexForm]
  omega

end FromHex

/-- `ToHex` writes two digits of `kXdigits` per byte, whichever path `ToHexBuffer` takes, and
`FromHex` and `IsHexData` accept them; in general `FromHex` decodes the leading complete
pairs of digits and returns how many digits it read. -/
theorem hex_round_trip (ssse3 : Bool) (s out e : List UInt8) :
    (toHex ssse3 s).length = lengthInHexForm s.length ∧
      (∀ d ∈ toHex ssse3 s, d ∈ kXdigits) ∧
      toHexBuffer ssse3 s = scalarLoop s ∧
      fromHex (toHex ssse3 s) out = (out ++ s, 2 * s.length) ∧
      isHexData (toHex ssse3 s) = true ∧
      fromHex e out = (out ++ decodePairs (e.take (2 * ((e.takeWhile isXDigit).length / 2))),
        2 * ((e.takeWhile isXDigit).length / 2)) := by
  have hlen : (toHex ssse3 s).length = lengthInHexForm s.length := by
    rw [toHex, toHexBuffer_eq, length_flatMap_hexDigits]
  refine ⟨hlen, mem_toHex, by rw [toHexBuffer_eq, scalarLoop_eq], ?_, ?_, ?_⟩
  · rw [fromHex_eq, getHexPart_toHex, hlen, lengthInHexForm, Nat.mul_comm, toHex,
      toHexBuffer_eq, decodePairs_flatMap_hexDigits]
  · rw [isHexData, getHexPart_toHex, hlen, lengthInHexForm]
    simp
  · rw [fromHex_eq, length_getHexPart, getHexPart_eq_take]

end Encoding

end Utils

end Userver
