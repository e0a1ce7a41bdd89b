import Userver.Postgres.Numeric
import Userver.Lib.CType
import Userver.Http.HeaderMap.Hash

/-!
# PostgreSQL `numeric` buffers from and to text

`StringToNumericBuffer` (`numeric_data.cpp`) parses a decimal string into the fields of a
`numeric` binary buffer (`NumericData::Parse`, then `GetBuffer`), and `NumericBufferToString`
reads a buffer back into text (`ReadBuffer`, then `ToString`).  A string is a list of bytes, the
buffer the `NumericData` its fields are written from, and `ReadBuffer` the `Valid` check of
`Numeric`.

`Parse` keeps the sign it reads before it skips the zeros, and returns right away when nothing but
zeros follows, so `"-0"`, `"-000"` and even `"-"` give a negative zero, which `ToString` writes
as `"-0"` (`minus_zeros_to_minus_zero`).
-/

namespace Userver

namespace Postgres

open CType

/-- `InvalidInputFormat`, with the message `Parse` gives it. -/
inductive InvalidInputFormat where
  /-- "Empty numeric string representation" -/
  | emptyString
  /-- "Scientific string representation for numerics is not supported" -/
  | scientific
  /-- "Invalid numeric string format: no symbols after decimal point" -/
  | noSymbolsAfterPoint
  /-- "String representation for a numeric contains a non-digit" -/
  | nonDigit
  deriving DecidableEq, Repr

/-! ## Searching a string -/

/-- `find_first_not_of`, `find` and `find_first_of` from `pos`: the first index at or after
`pos` whose byte satisfies `p`, or `npos`. -/
def findFrom (p : UInt8 → Bool) (str : List UInt8) (pos : Nat) : Option Nat :=
  ((str.drop pos).findIdx? p).map (· + pos)

/-- `find_last_not_of('0')`. -/
def findLastNotZero (part : List UInt8) : Option Nat :=
  (part.reverse.findIdx? (· != 48)).map (part.length - 1 - ·)

/-- `int16_t` of an `int`: the value modulo `2^16`, in `[-2^15, 2^15)`. -/
def wrapInt16 (x : Int) : Int := (x + 32768) % 65536 - 32768

/-! ## `Parse` -/

/-- `GetBinDigit(str, idx)`: `0` outside the string, the digit's value, or `InvalidInputFormat` on
any other byte. -/
def getBinDigit (str : List UInt8) (idx : Int) : Except InvalidInputFormat Int :=
  if idx < 0 ∨ (str.length : Int) ≤ idx then pure 0
  else
    let c := str.getD idx.toNat 0
    if isDigit c then pure (c.toNat - 48) else throw .nonDigit

/-- `GetPaddedDigit(str, idx)`: the four decimal digits from `idx` as one binary digit. -/
def getPaddedDigit (str : List UInt8) (idx : Int) : Except InvalidInputFormat Int :=
  (List.range kDigitWidth).foldlM (fun val i => do
    let d ← getBinDigit str (idx + i)
    pure (val * 10 + d)) 0

/-- The number of iterations of `for (dec_pos = left_padding; dec_pos < size; dec_pos += 4)`. -/
def groupCount (size : Nat) (leftPadding : Int) : Nat :=
  if leftPadding < size then ((size - leftPadding + kDigitWidth - 1) / kDigitWidth).toNat else 0

/-- `ConvertDecimalToBinary(dec_digits, left_padding, target)`: the binary digits of the groups
of four decimal digits from `left_padding`. -/
def convertDecimalToBinary (decDigits : List UInt8) (leftPadding : Int) :
    Except InvalidInputFormat (List Int) :=
  (List.range (groupCount decDigits.length leftPadding)).mapM fun g =>
    getPaddedDigit decDigits (leftPadding + kDigitWidth * g)

/-- `boost::trim_right_if(digits, c == 0)`. -/
def trimTrailingZeros (digits : List Int) : List Int :=
  (digits.reverse.dropWhile (· == 0)).reverse

/-- The end of `Parse`: the binary digits of the integral and the fractional part, the weight
from the decimal weight, trailing zero digits trimmed.  The fields are `int16_t` and
`uint16_t`. -/
def finishParse (sign : NumericSign) (integralPart fractionalPart : List UInt8) (decWeight : Int)
    (decScale : Nat) : Except InvalidInputFormat NumericData := do
  let weight := binWeight decWeight
  -- the first decimal digit's offset in its group; negative offsets are zero padding
  let paddingOffset := decWeight - (weight + 1) * kDigitWidth + 1
  let integralDigits ←
    if decWeight ≥ 0 then convertDecimalToBinary integralPart paddingOffset else pure []
  let paddingOffset := if decWeight ≥ 0 then 0 else paddingOffset
  let fractionalDigits ← convertDecimalToBinary fractionalPart paddingOffset
  let digits := trimTrailingZeros (integralDigits ++ fractionalDigits)
  pure ⟨digits.length % 65536, wrapInt16 weight, sign, decScale % 65536, digits⟩

/-- `Parse` from the decimal point at `decPointPos`: the fraction's leading zeros are skipped when
nothing is before the point, and its trailing zeros are cut. -/
def parseFraction (str : List UInt8) (sign : NumericSign) (integralPart : List UInt8)
    (decPointPos : Nat) (decWeight : Int) : Except InvalidInputFormat NumericData :=
  if decPointPos + 1 = str.length then throw .noSymbolsAfterPoint
  else
    let start : Option (Nat × Int) :=
      if integralPart.isEmpty then
        (findFrom (· != 48) str (decPointPos + 1)).map fun nonZ =>
          (nonZ, -((nonZ - decPointPos : Nat) : Int))
      else some (decPointPos + 1, decWeight)
    match start with
    | none => pure { NumericData.zero with sign := sign }
    | some (fracBegin, decWeight) =>
      let fractionalPart := str.drop fracBegin
      match findLastNotZero fractionalPart with
      | some nonZ =>
        finishParse sign integralPart (fractionalPart.take (nonZ + 1)) decWeight
          (nonZ + (fracBegin - decPointPos))
      | none =>
        if integralPart.isEmpty then pure { NumericData.zero with sign := sign }
        else finishParse sign integralPart [] decWeight 0

/-- `NumericData::Parse(str)` on a default-constructed `NumericData`. -/
def parseText (str : List UInt8) : Except InvalidInputFormat NumericData :=
  if str.isEmpty then throw .emptyString
  else if Http.Headers.strIcaseEqual str (ascii "nan") then
    pure { NumericData.zero with sign := .nan }
  else
    let (sign, startPos) : NumericSign × Nat :=
      match str.head? with
      | some 43 => (.positive, 1)
      | some 45 => (.negative, 1)
      | _ => (.positive, 0)
    -- skip leading zeros; a string of zeros is zero, with the sign read so far
    match findFrom (· != 48) str startPos with
    | none => pure { NumericData.zero with sign := sign }
    | some startPos =>
      let decPointPos := findFrom (· == 46) str startPos
      if (findFrom (fun c => c == 101 || c == 69) str startPos).isSome then throw .scientific
      else
        let intPartEnd := decPointPos.getD str.length
        let integralPart := (str.drop startPos).take (intPartEnd - startPos)
        let decWeight : Int := integralPart.length - 1
        match decPointPos with
        | none => finishParse sign integralPart [] decWeight 0
        | some decPointPos => parseFraction str sign integralPart decPointPos decWeight

/-- `StringToNumericBuffer(str)`: `Parse`, and the buffer `GetBuffer` writes from its fields. -/
def stringToNumericBuffer (str : List UInt8) : Except InvalidInputFormat NumericData :=
  parseText str

/-! ## `ToString` -/

/-- `WriteDigit(res, bin_dgt, truncate_leading_zeros)`: the buffer of eight `'0'` takes the
decimal digits of `bin_dgt`, least significant first, and its first `significant_digits` (at
least one) or four bytes are appended in reverse. -/
def writeDigit (binDgt : Nat) (truncateLeadingZeros : Bool) : List UInt8 :=
  let significant : List UInt8 :=
    if binDgt = 0 then [] else (Nat.toDigits 10 binDgt).reverse.map Char.toUInt8
  let buffer := (significant ++ List.replicate 8 48).take 8
  let e := if truncateLeadingZeros then max significant.length 1 else kDigitWidth
  (buffer.take e).reverse

/-- `NumericData::ToString()`: `NaN`, or the sign, the binary digits up to the point (the first
without leading zeros), and the digits after it up to `dscale`, trailing `'0'`s trimmed from the
whole text. -/
def NumericData.toText (n : NumericData) : List UInt8 :=
  if n.sign = .nan then ascii "NaN"
  else
    let sign : List UInt8 := if n.sign = .negative then [45] else []
    let (integral, binDigitPos) : List UInt8 × Int :=
      if n.weight < 0 then ([48], n.weight + 1)
      else
        ((List.range (n.weight + 1).toNat).flatMap fun pos =>
          writeDigit (n.digitAt pos).toNat (pos = 0), n.weight + 1)
    if n.dscale > 0 then
      let fraction := (List.range (fractionGroups n.dscale)).flatMap fun g =>
        writeDigit (n.digitAt (binDigitPos + g)).toNat false
      ((sign ++ integral ++ 46 :: fraction).reverse.dropWhile (· == 48)).reverse
    else sign ++ integral

/-- `NumericBufferToString(buffer)`: `ReadBuffer`, then `ToString`. -/
def numericBufferToString (n : NumericData) : Except NumericError (List UInt8) :=
  if n.Valid then pure n.toText else throw .invalidBinaryBuffer

example : (stringToNumericBuffer (ascii "-.5")).toOption.map NumericData.toText =
    some (ascii "-0.5") := by
  decide

/-! ## A sign before zeros -/

theorem findFrom_replicate_zero (n : Nat) :
    findFrom (· != 48) (45 :: List.replicate n 48) 1 = none := by
  simp only [findFrom, List.drop_succ_cons, List.drop_zero, Option.map_eq_none_iff,
    List.findIdx?_eq_none_iff]
  intro c hc
  rw [List.eq_of_mem_replicate hc]
  rfl

/-- `"-"` followed by any number of `'0'`, `"-"` itself included, is accepted as a negative zero,
which is written back as `"-0"`. -/
theorem minus_zeros_to_minus_zero (n : Nat) :
    ∃ buffer, stringToNumericBuffer (45 :: List.replicate n 48) = .ok buffer ∧
      numericBufferToString buffer = .ok (ascii "-0") := by
  have hnan : Http.Headers.strIcaseEqual (45 :: List.replicate n 48) (ascii "nan") = false := by
    rw [Http.Headers.strIcaseEqual, show ascii "nan" = [110, 97, 110] from rfl]
    have hhead : Http.Headers.toLowerAscii 45 ≠ Http.Headers.toLowerAscii 110 := by decide
    simp [hhead]
  refine ⟨{ NumericData.zero with sign := .negative }, ?_, by decide⟩
  -- the sign is read, and nothing but zeros follows it
  rw [stringToNumericBuffer, parseText, if_neg (by simp), if_neg (by simp [hnan])]
  simp only [List.head?_cons]
  rw [findFrom_replicate_zero]
  rfl

end Postgres

end Userver
