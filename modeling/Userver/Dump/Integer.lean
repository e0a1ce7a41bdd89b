import Userver.Lib.Codec

/-!
# Integers in cache dumps

`dump::Writer` appends bytes to a dump and `dump::Reader` reads them back with a cursor
(`core/src/dump/common.cpp`, `core/include/userver/dump/common.hpp`).  A reader is a
`Codec.Decoder` over bytes here; a writer is the list of bytes it appends.  The host is
little-endian, as the `TODO: endianness` of `WriteTrivial` and `ReadTrivial` assume.

`writeInteger` and `readInteger` are the variable-length format of `impl::WriteInteger` and
`impl::ReadInteger`: one byte below `0x80`, two big-endian bytes tagged `10` below `0x4000`, four
big-endian bytes tagged `11` below `0x3f000000`, and else `0xff` followed by the eight native
bytes.  `readInteger_writeInteger` reads every `uint64_t` back, whatever follows it.

Integer types of other widths are written through it (`writeInt`, `readInt`), except one-byte
types, which are copied as is; a value read back is range-checked with `utils::numeric_cast`.
-/

namespace Userver

namespace Dump

open Codec

/-- The exceptions of reading and writing a dump: `dump::Error` on an early end of the data
(with the requested size), on a `bool` byte other than `0` and `1` and on a `std::variant` index
out of range; the `std::runtime_error` of `utils::numeric_cast`; the `std::logic_error` of a
duration that does not fit `std::chrono::nanoseconds`; and signed overflow, which is undefined
behaviour in C++. -/
inductive DumpError where
  | eof (requestedSize : Nat)
  | invalidBool
  | invalidVariantIndex (index : Nat)
  | numericCast
  | hugeDuration
  | signedOverflow
  deriving DecidableEq, Repr

/-- A `dump::Reader`: the bytes left to read. -/
abbrev Reader := Decoder UInt8 DumpError

/-- `ReadStringViewUnsafe(reader, size)`: exactly `size` bytes, or `dump::Error`. -/
def readStringViewUnsafe (size : Nat) : Reader {bytes : List UInt8 // bytes.length = size} :=
  readExactly (.eof size) size

/-- `impl::WriteTrivial` of an unsigned integer of `n` bytes: its bytes in memory. -/
def writeTrivial (n value : Nat) : List UInt8 := leBytes n value

/-- `impl::ReadTrivial` of an unsigned integer of `n` bytes. -/
def readTrivial (n : Nat) : Reader Nat := (fun bytes => leValue bytes.1) <$> readStringViewUnsafe n

/-- `impl::ReadTrivial<std::uint8_t>`. -/
def readByte : Reader UInt8 := do
  let bytes ← readStringViewUnsafe 1
  pure (bytes.1.headD 0)

/-- The value of bytes stored big-endian: what `boost::endian::big_to_native` makes of them. -/
def beValue (bytes : List UInt8) : Nat := leValue bytes.reverse

/-- `impl::WriteInteger(writer, value)`; `native_to_big` reverses the bytes of a word. -/
def writeInteger (value : Nat) : List UInt8 :=
  if value < 0x80 then writeTrivial 1 value
  else if value < 0x4000 then (writeTrivial 2 (value ||| 0x8000)).reverse
  else if value < 0x3f000000 then (writeTrivial 4 (value ||| 0xc0000000)).reverse
  else writeTrivial 1 0xff ++ writeTrivial 8 value

/-- `impl::ReadInteger(reader)`.  The head byte without its tag is the first byte in memory of
a big-endian word whose other bytes are copied after it. -/
def readInteger : Reader Nat := do
  let head ← readByte
  if head < 0x80 then pure head.toNat
  else if head < 0xc0 then
    let rest ← readStringViewUnsafe 1
    pure (beValue ((head &&& ~~~0x80) :: rest.1))
  else if head < 0xff then
    let rest ← readStringViewUnsafe 3
    pure (beValue ((head &&& ~~~0xc0) :: rest.1))
  else readTrivial 8

theorem readsBack_readStringViewUnsafe (bs : List UInt8) {n : Nat} (h : bs.length = n) :
    ReadsBack (readStringViewUnsafe n) bs ⟨bs, h⟩ := by
  subst h
  exact readsBack_readExactly _ bs

theorem readsBack_readTrivial (n : Nat) {v : Nat} (hv : v < 256 ^ n) :
    ReadsBack (readTrivial n) (writeTrivial n v) v := by
  have h := (readsBack_readStringViewUnsafe (leBytes n v) (length_leBytes n v)).map
    (fun bytes => leValue bytes.1)
  rw [leValue_leBytes, Nat.mod_eq_of_lt hv] at h
  exact h

theorem readsBack_readByte (b : UInt8) : ReadsBack readByte [b] b := by
  intro rest
  rfl

/-- A head byte in `[lo, 0x100)` read back with its tag `lo` cleared. -/
theorem untag_byte (x lo : Nat) (hlo : lo = 0x80 ∨ lo = 0xc0) (hx : lo ≤ x) (hx' : x < 0x100) :
    ((UInt8.ofNat x) &&& ~~~(UInt8.ofNat lo)).toNat = x - lo := by
  rcases hlo with rfl | rfl
  · have hm : (~~~(UInt8.ofNat 0x80)).toNat = 2 ^ 7 - 1 := by decide
    rw [UInt8.toNat_and, hm, Nat.and_two_pow_sub_one_eq_mod, UInt8.toNat_ofNat']
    omega
  · have hm : (~~~(UInt8.ofNat 0xc0)).toNat = 2 ^ 6 - 1 := by decide
    rw [UInt8.toNat_and, hm, Nat.and_two_pow_sub_one_eq_mod, UInt8.toNat_ofNat']
    omega

/-- Setting tag bits above a value adds them. -/
theorem or_tag {v a : Nat} (i : Nat) (hv : v < 2 ^ i) : v ||| 2 ^ i * a = 2 ^ i * a + v := by
  rw [Nat.lor_comm, Nat.two_pow_add_eq_or_of_lt hv]

theorem readsBack_readInteger_of_lt_0x80 {v : Nat} (hv : v < 0x80) :
    ReadsBack readInteger (writeInteger v) v := by
  have hw : writeInteger v = [UInt8.ofNat v] := by
    simp only [writeInteger, if_pos hv]
    rfl
  have hhead : UInt8.ofNat v < 0x80 := by
    rw [UInt8.lt_iff_toNat_lt, UInt8.toNat_ofNat']
    simp only [UInt8.reduceToNat]
    omega
  rw [hw, ← List.append_nil [UInt8.ofNat v]]
  refine (readsBack_readByte _).bind ?_
  simp only [if_pos hhead]
  have : (UInt8.ofNat v).toNat = v := by rw [UInt8.toNat_ofNat']; omega
  rw [this]
  exact ReadsBack.pure v

theorem readsBack_readInteger_two {v : Nat} (hv : 0x80 ≤ v) (hv' : v < 0x4000) :
    ReadsBack readInteger (writeInteger v) v := by
  -- the tagged word is `0x8000 + v`, written high byte first
  have htag : v ||| 0x8000 = 2 ^ 15 * 1 + v := or_tag (a := 1) 15 (by omega)
  have hw : writeInteger v = [UInt8.ofNat ((0x8000 + v) / 256), UInt8.ofNat (0x8000 + v)] := by
    simp only [writeInteger, if_neg (show ¬v < 0x80 by omega), if_pos hv', htag]
    simp [writeTrivial, leBytes]
  have hhead : ¬UInt8.ofNat ((0x8000 + v) / 256) < 0x80 ∧ UInt8.ofNat ((0x8000 + v) / 256) < 0xc0 := by
    simp only [UInt8.lt_iff_toNat_lt, UInt8.toNat_ofNat', UInt8.reduceToNat]
    omega
  have huntag := untag_byte ((0x8000 + v) / 256) 0x80 (.inl rfl) (by omega) (by omega)
  rw [hw, show [UInt8.ofNat ((0x8000 + v) / 256), UInt8.ofNat (0x8000 + v)] =
    [UInt8.ofNat ((0x8000 + v) / 256)] ++ ([UInt8.ofNat (0x8000 + v)] ++ []) from rfl]
  refine (readsBack_readByte _).bind ?_
  simp only [if_neg hhead.1, if_pos hhead.2]
  refine (readsBack_readStringViewUnsafe [UInt8.ofNat (0x8000 + v)] rfl).bind ?_
  have hval : beValue ((UInt8.ofNat ((0x8000 + v) / 256) &&& ~~~0x80) ::
      [UInt8.ofNat (0x8000 + v)]) = v := by
    simp only [beValue, List.reverse_cons, List.reverse_nil, List.nil_append, List.cons_append,
      leValue, UInt8.toNat_ofNat']
    rw [show (0x80 : UInt8) = UInt8.ofNat 0x80 from rfl, huntag]
    omega
  rw [hval]
  exact ReadsBack.pure v

theorem readsBack_readInteger_four {v : Nat} (hv : 0x4000 ≤ v) (hv' : v < 0x3f000000) :
    ReadsBack readInteger (writeInteger v) v := by
  -- the tagged word is `0xc0000000 + v`, written high byte first
  have htag : v ||| 0xc0000000 = 2 ^ 30 * 3 + v := or_tag (a := 3) 30 (by omega)
  have hw : writeInteger v = [UInt8.ofNat ((0xc0000000 + v) / 2 ^ 24)] ++
      ([UInt8.ofNat ((0xc0000000 + v) / 2 ^ 16), UInt8.ofNat ((0xc0000000 + v) / 2 ^ 8),
        UInt8.ofNat (0xc0000000 + v)] ++ []) := by
    simp only [writeInteger, if_neg (show ¬v < 0x80 by omega),
      if_neg (show ¬v < 0x4000 by omega), if_pos hv', htag]
    simp [writeTrivial, leBytes, Nat.div_div_eq_div_mul]
  have hhead : ¬UInt8.ofNat ((0xc0000000 + v) / 2 ^ 24) < 0x80 ∧
      ¬UInt8.ofNat ((0xc0000000 + v) / 2 ^ 24) < 0xc0 ∧
      UInt8.ofNat ((0xc0000000 + v) / 2 ^ 24) < 0xff := by
    simp only [UInt8.lt_iff_toNat_lt, UInt8.toNat_ofNat', UInt8.reduceToNat]
    omega
  have huntag := untag_byte ((0xc0000000 + v) / 2 ^ 24) 0xc0 (.inr rfl) (by omega)
    (by omega)
  rw [hw]
  refine (readsBack_readByte _).bind ?_
  simp only [if_neg hhead.1, if_neg hhead.2.1, if_pos hhead.2.2]
  refine (readsBack_readStringViewUnsafe [_, _, _] rfl).bind ?_
  have hval : beValue ((UInt8.ofNat ((0xc0000000 + v) / 2 ^ 24) &&& ~~~0xc0) ::
      [UInt8.ofNat ((0xc0000000 + v) / 2 ^ 16), UInt8.ofNat ((0xc0000000 + v) / 2 ^ 8),
        UInt8.ofNat (0xc0000000 + v)]) = v := by
    simp only [beValue, List.reverse_cons, List.reverse_nil, List.nil_append, List.cons_append,
      leValue, UInt8.toNat_ofNat']
    rw [show (0xc0 : UInt8) = UInt8.ofNat 0xc0 from rfl, huntag]
    omega
  rw [hval]
  exact ReadsBack.pure v

theorem readsBack_readInteger_nine {v : Nat} (hv : 0x3f000000 ≤ v) (hv' : v < 2 ^ 64) :
    ReadsBack readInteger (writeInteger v) v := by
  have hw : writeInteger v = [0xff] ++ writeTrivial 8 v := by
    simp only [writeInteger, if_neg (show ¬v < 0x80 by omega),
      if_neg (show ¬v < 0x4000 by omega), if_neg (show ¬v < 0x3f000000 by omega)]
    rfl
  rw [hw]
  refine (readsBack_readByte _).bind ?_
  simp only [show ¬(0xff : UInt8) < 0x80 by decide, show ¬(0xff : UInt8) < 0xc0 by decide,
    show ¬(0xff : UInt8) < 0xff by decide, if_false]
  exact readsBack_readTrivial 8 hv'

/-- `impl::ReadInteger` reads back every `uint64_t` that `impl::WriteInteger` wrote. -/
theorem readsBack_readInteger {v : Nat} (hv : v < 2 ^ 64) :
    ReadsBack readInteger (writeInteger v) v := by
  by_cases h1 : v < 0x80
  · exact readsBack_readInteger_of_lt_0x80 h1
  by_cases h2 : v < 0x4000
  · exact readsBack_readInteger_two (by omega) h2
  by_cases h3 : v < 0x3f000000
  · exact readsBack_readInteger_four (by omega) h3
  · exact readsBack_readInteger_nine (by omega) hv

/-- The size classes of the format: 1, 2, 4 or 9 bytes. -/
theorem length_writeInteger (v : Nat) :
    (writeInteger v).length =
      if v < 0x80 then 1 else if v < 0x4000 then 2 else if v < 0x3f000000 then 4 else 9 := by
  unfold writeInteger
  split_ifs <;> simp [writeTrivial]

/-! ## Integer types -/

/-- An integer type: its size in bytes and whether it is signed. -/
structure IntType where
  size : Nat
  signed : Bool
  size_mem : size = 1 ∨ size = 2 ∨ size = 4 ∨ size = 8

/-- `std::numeric_limits<T>::lowest()`. -/
def IntType.lowest (t : IntType) : Int := if t.signed then -2 ^ (8 * t.size - 1) else 0

/-- `std::numeric_limits<T>::max()`. -/
def IntType.max (t : IntType) : Int :=
  if t.signed then 2 ^ (8 * t.size - 1) - 1 else 2 ^ (8 * t.size) - 1

/-- `x` is a value of the type. -/
def IntType.InRange (t : IntType) (x : Int) : Prop := t.lowest ≤ x ∧ x ≤ t.max

instance (t : IntType) (x : Int) : Decidable (t.InRange x) :=
  inferInstanceAs (Decidable (_ ∧ _))

/-- `std::int64_t`. -/
def IntType.int64 : IntType := ⟨8, true, by decide⟩

/-- `std::uint64_t` and `std::size_t`. -/
def IntType.uint64 : IntType := ⟨8, false, by decide⟩

/-- A value of a type of at most eight bytes lies in `int64_t` when signed and in `uint64_t`
when not. -/
theorem IntType.bounds {t : IntType} {x : Int} (hx : t.InRange x) :
    (t.signed = true → -2 ^ 63 ≤ x ∧ x < 2 ^ 63) ∧ (t.signed = false → 0 ≤ x ∧ x < 2 ^ 64) := by
  obtain ⟨hlo, hhi⟩ := hx
  have hpow : (2 : Int) ^ (8 * t.size - 1) ≤ 2 ^ 63 ∧ (2 : Int) ^ (8 * t.size) ≤ 2 ^ 64 := by
    rcases t.size_mem with h | h | h | h <;> rw [h] <;> norm_num
  unfold IntType.lowest IntType.max at *
  constructor
  · intro hs
    simp only [hs, if_true] at hlo hhi
    omega
  · intro hs
    simp only [hs, Bool.false_eq_true, if_false] at hlo hhi
    omega

/-- `std::uint8_t`. -/
def IntType.uint8 : IntType := ⟨1, false, by decide⟩

/-- The conversion of an integer to the type, modulo `2^bits` as C++ converts: into
`[lowest, max]`.  It is also the value whose bytes in memory are the low bytes of `x`. -/
def IntType.cast (t : IntType) (x : Int) : Int := t.lowest + (x - t.lowest) % 2 ^ (8 * t.size)

theorem IntType.max_eq (t : IntType) : t.max = t.lowest + 2 ^ (8 * t.size) - 1 := by
  have hb : (2 : Int) ^ (8 * t.size) = 2 * 2 ^ (8 * t.size - 1) := by
    rw [← pow_succ']
    congr 1
    rcases t.size_mem with h | h | h | h <;> omega
  unfold IntType.max IntType.lowest
  split
  · rw [hb]
    omega
  · omega

theorem IntType.cast_inRange (t : IntType) (x : Int) : t.InRange (t.cast x) := by
  have hpos : (0 : Int) < 2 ^ (8 * t.size) := by positivity
  have h0 := Int.emod_nonneg (x - t.lowest) hpos.ne'
  have h1 := Int.emod_lt_of_pos (x - t.lowest) hpos
  unfold IntType.InRange IntType.cast
  rw [IntType.max_eq]
  omega

theorem IntType.cast_of_inRange {t : IntType} {x : Int} (hx : t.InRange x) : t.cast x = x := by
  obtain ⟨hlo, hhi⟩ := hx
  rw [IntType.max_eq] at hhi
  unfold IntType.cast
  rw [Int.emod_eq_of_lt (by omega) (by omega)]
  omega

/-- The conversion reads only the low bits. -/
theorem IntType.cast_emod (t : IntType) (x : Int) : t.cast (x % 2 ^ (8 * t.size)) = t.cast x := by
  unfold IntType.cast
  rcases t.size_mem with h | h | h | h <;> rw [h] <;> omega

/-- Converting through a type of the same width first changes nothing. -/
theorem IntType.cast_cast {t u : IntType} (h : t.size = u.size) (x : Int) :
    t.cast (u.cast x) = t.cast x := by
  unfold IntType.cast
  rw [h, show u.lowest + (x - u.lowest) % 2 ^ (8 * u.size) - t.lowest =
    (u.lowest - t.lowest) + (x - u.lowest) % 2 ^ (8 * u.size) by ring, Int.add_emod_emod]
  congr 2
  ring

/-- `utils::numeric_cast<T>`: the value if `T` holds it, else `std::runtime_error`. -/
def numericCast (t : IntType) (x : Int) : Reader {y : Int // t.InRange y} :=
  if h : t.InRange x then pure ⟨x, h⟩ else throw .numericCast

/-- `Write(writer, T)` for an integer type `T`: one-byte types are copied, the others go
through `impl::WriteInteger` of `static_cast<std::uint64_t>(value)`. -/
def writeInt (t : IntType) (x : Int) : List UInt8 :=
  if t.size = 1 then writeTrivial 1 (IntType.uint8.cast x).toNat
  else writeInteger (IntType.uint64.cast x).toNat

/-- `Read(reader, To<T>)` for an integer type `T`: a one-byte value is copied; otherwise a signed
value is `static_cast<std::int64_t>` of the raw `uint64_t`, and both are range-checked. -/
def readInt (t : IntType) : Reader {x : Int // t.InRange x} := do
  if t.size = 1 then
    let raw ← readTrivial 1
    pure ⟨t.cast raw, t.cast_inRange raw⟩
  else
    let raw ← readInteger
    numericCast t (if t.signed then IntType.int64.cast raw else raw)

/-- Every value of an integer type is read back as written. -/
theorem readsBack_readInt (t : IntType) {x : Int} (hx : t.InRange x) :
    ReadsBack (readInt t) (writeInt t x) ⟨x, hx⟩ := by
  obtain ⟨hsigned, hunsigned⟩ := IntType.bounds hx
  obtain ⟨h8lo, h8hi⟩ := IntType.cast_inRange IntType.uint8 x
  obtain ⟨h64lo, h64hi⟩ := IntType.cast_inRange IntType.uint64 x
  rw [show IntType.uint8.lowest = 0 from rfl] at h8lo
  rw [show IntType.uint8.max = 255 from rfl] at h8hi
  rw [show IntType.uint64.lowest = 0 from rfl] at h64lo
  rw [show IntType.uint64.max = 2 ^ 64 - 1 from rfl] at h64hi
  by_cases h1 : t.size = 1
  · -- one byte, copied as is
    simp only [writeInt, readInt, if_pos h1]
    rw [← List.append_nil (writeTrivial 1 _)]
    refine (readsBack_readTrivial 1 (by omega)).bind ?_
    have hval : t.cast ((IntType.uint8.cast x).toNat : Nat) = x := by
      rw [Int.toNat_of_nonneg (by omega),
        IntType.cast_cast (t := t) (u := IntType.uint8) (by rw [h1]; rfl),
        IntType.cast_of_inRange hx]
    simp only [hval]
    exact ReadsBack.pure _
  · -- through the variable-length format, then `numeric_cast`
    simp only [writeInt, readInt, if_neg h1]
    rw [← List.append_nil (writeInteger _)]
    refine (readsBack_readInteger (by omega)).bind ?_
    have hval : (if t.signed then IntType.int64.cast ((IntType.uint64.cast x).toNat : Nat)
        else (((IntType.uint64.cast x).toNat : Nat) : Int)) = x := by
      rw [Int.toNat_of_nonneg (by omega)]
      cases hs : t.signed
      · have := hunsigned hs
        simp only [Bool.false_eq_true, if_false]
        exact IntType.cast_of_inRange ⟨by simp [IntType.lowest, IntType.uint64]; omega,
          by simp [IntType.max, IntType.uint64]; omega⟩
      · have := hsigned hs
        simp only [if_true]
        rw [IntType.cast_cast (t := IntType.int64) (u := IntType.uint64) rfl]
        exact IntType.cast_of_inRange ⟨by simp [IntType.lowest, IntType.int64]; omega,
          by simp [IntType.max, IntType.int64]; omega⟩
    rw [hval]
    simp only [numericCast, dif_pos hx]
    exact ReadsBack.pure _

end Dump

end Userver
