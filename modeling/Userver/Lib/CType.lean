import Mathlib.Data.List.Basic

/-!
# Character classes of `<cctype>` in the C locale

A `char` of the source is a byte (`UInt8`); `std::isdigit` and `std::isalnum` are those of the C
locale, which accepts only ASCII.  The modules that read text (`Http.Url`, the numeric and
time-of-day parsers) take their character classes from here.
-/

namespace Userver

namespace CType

/-- `std::isdigit`: `'0'` to `'9'`. -/
def isDigit (c : UInt8) : Bool := 48 ≤ c && c ≤ 57

/-- `std::isalpha`: the ASCII letters. -/
def isAlpha (c : UInt8) : Bool := (65 ≤ c && c ≤ 90) || (97 ≤ c && c ≤ 122)

/-- `std::isalnum`: digits and ASCII letters. -/
def isAlnum (c : UInt8) : Bool := isDigit c || isAlpha c

/-- The bytes of an ASCII string literal. -/
def ascii (s : String) : List UInt8 := s.toList.map Char.toUInt8

end CType

end Userver
