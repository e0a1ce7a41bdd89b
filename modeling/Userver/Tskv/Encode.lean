import Mathlib

/-!
# TSKV encoding

`utils::encoding::EncodeTskv` (`tskv.hpp`) writes the keys and values of a TSKV record.  A byte
that ends a pair or a record, or starts an escape, is written as a backslash and a letter; a key
is lower-cased and a `=` in it is escaped too.  Bytes are `UInt8`, the `char`s of the source.

The string overload encodes keys byte by byte, and values a memory block at a time: a block with
nothing that may need escaping is copied as it is, any other block is encoded byte by byte
(`EncodeValueBlock`).  `doEncode_eq` shows that, wherever the blocks are cut, this is the
byte-wise encoding `encodeTskvString`.
-/

namespace Userver

namespace Tskv

/-- `EncodeTskvMode`. -/
inductive EncodeTskvMode where
  | kKey
  | kValue
  | kKeyReplacePeriod
  deriving DecidableEq, Repr

/-- `EncodeTskv(destination, ch, mode)`: the bytes appended for `ch`.  Each `if` is a label of the
`switch`; `.` falls through to the capital letters, they fall through to `=`, and `=` to
`default`, which is why the later conditions repeat the earlier labels. -/
def encodeTskv (ch : UInt8) (mode : EncodeTskvMode) : List UInt8 :=
  let isKeyEncoding : Bool := mode == .kKey || mode == .kKeyReplacePeriod
  let isCapital : Bool := 'A'.toUInt8 ≤ ch && ch ≤ 'Z'.toUInt8
  if ch = '\t'.toUInt8 then ['\\'.toUInt8, 't'.toUInt8]
  else if ch = '\r'.toUInt8 then ['\\'.toUInt8, 'r'.toUInt8]
  else if ch = '\n'.toUInt8 then ['\\'.toUInt8, 'n'.toUInt8]
  else if ch = 0 then ['\\'.toUInt8, '0'.toUInt8]
  else if ch = '\\'.toUInt8 then ['\\'.toUInt8, ch]
  else if ch = '.'.toUInt8 && mode == .kKeyReplacePeriod then ['_'.toUInt8]
  else if (ch = '.'.toUInt8 || isCapital) && isKeyEncoding then [ch ||| 0x20]
  else if (ch = '.'.toUInt8 || isCapital || ch = '='.toUInt8) && isKeyEncoding then
    ['\\'.toUInt8, ch]
  else [ch]

/-- `EncodeTskv(container, str, mode)`: the bytes of `str` encoded one after another. -/
def encodeTskvString (str : List UInt8) (mode : EncodeTskvMode) : List UInt8 :=
  str.flatMap fun ch => encodeTskv ch mode

@[simp] theorem encodeTskvString_nil (mode : EncodeTskvMode) : encodeTskvString [] mode = [] := rfl

@[simp] theorem encodeTskvString_cons (ch : UInt8) (str : List UInt8) (mode : EncodeTskvMode) :
    encodeTskvString (ch :: str) mode = encodeTskv ch mode ++ encodeTskvString str mode := rfl

/-! ## The block-wise encoding of values -/

/-- `MayNeedValueEscaping`: a byte of the block is at most `'\r'` as a signed `char`, which takes
in every byte from `0x80`, or is a backslash. -/
def mayNeedValueEscaping (block : List UInt8) : Bool :=
  block.any fun c => c.toInt8 ≤ 13 || c = '\\'.toUInt8

/-- `EncodeValueEach`. -/
def encodeValueEach (str : List UInt8) : List UInt8 :=
  str.flatMap fun c => encodeTskv c .kValue

/-- `EncodeValueBlock`: the happy path copies the block. -/
def encodeValueBlock (block : List UInt8) : List UInt8 :=
  if mayNeedValueEscaping block then encodeValueEach block else block

/-- `EncodeValue`, given the bytes of `str` as the blocks of the aligned loads over it: where
they are cut depends on the address of `str`. -/
def encodeValue (blocks : List (List UInt8)) : List UInt8 :=
  blocks.flatMap encodeValueBlock

/-- `DoEncode` of the string `blocks.flatten`. -/
def doEncode (blocks : List (List UInt8)) (mode : EncodeTskvMode) : List UInt8 :=
  if mode = .kValue then encodeValue blocks
  else blocks.flatten.flatMap fun c => encodeTskv c mode

set_option maxRecDepth 8000 in
/-- A byte that needs no escaping in a value is copied.  The happy path's test is coarser than
the `switch`: it also sends `\x01`..`\x0c` and the bytes from `0x80` to the byte-wise path. -/
theorem encodeTskv_value_of_not_mayNeed :
    ∀ c : UInt8, (c.toInt8 ≤ 13 || c = '\\'.toUInt8) = false → encodeTskv c .kValue = [c] := by
  decide

theorem encodeValueBlock_eq (block : List UInt8) :
    encodeValueBlock block = encodeTskvString block .kValue := by
  unfold encodeValueBlock encodeValueEach encodeTskvString
  split
  · rfl
  · -- no byte of the block is escaped, so each is copied
    rename_i hblock
    have hcopy : ∀ c ∈ block, encodeTskv c .kValue = [c] := by
      intro c hc
      apply encodeTskv_value_of_not_mayNeed
      simpa [mayNeedValueEscaping] using fun h => hblock (List.any_eq_true.mpr ⟨c, hc, h⟩)
    rw [List.flatMap_congr hcopy, List.flatMap_singleton']

/-- Whatever the blocks, `DoEncode` is the byte-wise encoding of the string. -/
theorem doEncode_eq (blocks : List (List UInt8)) (mode : EncodeTskvMode) :
    doEncode blocks mode = encodeTskvString blocks.flatten mode := by
  unfold doEncode
  split
  · rename_i hmode
    subst hmode
    induction blocks with
    | nil => rfl
    | cons block blocks ih =>
      simp only [encodeValue, List.flatMap_cons, List.flatten_cons] at ih ⊢
      rw [ih, encodeValueBlock_eq, encodeTskvString, encodeTskvString, encodeTskvString,
        List.flatMap_append]
  · rfl

end Tskv

end Userver
