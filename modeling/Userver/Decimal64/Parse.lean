import Userver.Decimal64.Basic

/-!
# Parsing decimals

`impl::ParseUnpacked` reads a decimal character by character through an 11-state machine
(`ParseState`), accumulating the integral digits in `before`, at most `kMaxDecimalDigits`
fractional digits in `after` (counted by the `uint8_t after_digit_count`), the zeros right after
the dot in `zeros_after_dec`, and an optional `uint8_t` exponent.  After the loop it checks for
trailing characters, missing digits, a boundary dot and a missing exponent, and forgets the
fractional part when it consists of at least `kMaxDecimalDigits` zeros.  `impl::Parse` then
checks rounding and overflow and builds the `Decimal`.

The character source is `StringCharSequence`: `Get` yields `'\0'` at the end, so an embedded
`'\0'` also ends the number.  `parseLoop` is the `while` loop, one `step` per character;
`parseUnpacked` adds the checks after it.  `Decimal.fromString` is the strict constructor
`Decimal(std::string_view)` (`ParseOptions::kNone`) and `Decimal.fromStringPermissive` is
`Decimal::FromStringPermissive`.
-/

namespace Userver

namespace Decimal64

/-- The flags of `ParseOptions`. -/
structure ParseOptions where
  /-- `kAllowSpaces`. -/
  allowSpaces : Bool
  /-- `kAllowTrailingJunk`. -/
  allowTrailingJunk : Bool
  /-- `kAllowBoundaryDot`. -/
  allowBoundaryDot : Bool
  /-- `kAllowRounding`. -/
  allowRounding : Bool
  /-- `kAllowExponent`. -/
  allowExponent : Bool
  deriving DecidableEq, Repr

/-- `ParseOptions::kNone`: the options of the strict constructor. -/
def ParseOptions.kNone : ParseOptions := ⟨false, false, false, false, false⟩

/-- The options of `Decimal::FromStringPermissive`. -/
def ParseOptions.permissive : ParseOptions := ⟨true, false, true, true, true⟩

/-- The states of `ParseState`. -/
inductive ParseState where
  | sign
  | beforeFirstDig
  | leadingZeros
  | beforeDec
  | afterDec
  | zerosAfterDec
  | ignoringAfterDec
  | expSign
  | expFirstDigit
  | expDigits
  | «end»
  deriving DecidableEq, Repr

/-- `IsSpace`. -/
def isSpace (c : Char) : Bool :=
  c == ' ' || c == '\t' || c == '\r' || c == '\n' || c == '\x0b'

/-- `static_cast<int>(c - '0')`. -/
def digitOf (c : Char) : Int := (c.toNat : Int) - '0'.toNat

/-- The local variables of `ParseUnpacked`. -/
structure ParseLoop where
  before : Int
  after : Int
  isNegative : Bool
  position : Int
  state : ParseState
  error : Option ParseErrorCode
  beforeDigitCount : Nat
  afterDigitCount : UInt8
  isNegativeExp : Bool
  exponent : UInt8
  zerosAfterDec : Nat
  deriving DecidableEq, Repr

/-- The variables on entry of `ParseUnpacked`. -/
def ParseLoop.init : ParseLoop := ⟨0, 0, false, -1, .sign, none, 0, 0, false, 0, 0⟩

/-- `StateToExpSign`. -/
def stateToExpSign (options : ParseOptions) (s : ParseLoop) : ParseLoop :=
  { s with
    error := if s.error.isNone ∧ !options.allowExponent then some .exponentNotAllowed else s.error
    state := .expSign }

/-- The body of `case ParseState::kAfterDec`, also reached from `kZerosAfterDec` by
fallthrough on a character other than `'0'`. -/
def afterDecChar (options : ParseOptions) (s : ParseLoop) (c : Char) : ParseLoop :=
  let s := { s with state := .afterDec }
  if c.isDigit then
    if s.afterDigitCount.toNat < kMaxDecimalDigits then
      { s with after := 10 * s.after + digitOf c, afterDigitCount := s.afterDigitCount + 1 }
    else
      let s := if !options.allowRounding ∧ s.error.isNone then { s with error := some .rounding }
        else s
      let s := { s with state := .ignoringAfterDec }
      -- round half up
      if c ≥ '5' then { s with after := s.after + 1 } else s
  else if c = 'e' ∨ c = 'E' then stateToExpSign options s
  else
    let s := if !options.allowBoundaryDot ∧ s.afterDigitCount = 0 ∧ s.error.isNone then
        { s with error := some .boundaryDot } else s
    { s with state := .«end» }

/-- `exponent = 10 * exponent + d` in `uint8_t` through `__builtin_mul_overflow` and
`__builtin_add_overflow`: the wrapped result and whether either overflowed.  The addition is
skipped when the multiplication overflows (`||` short-circuits). -/
def accumulateExponent (exponent : UInt8) (d : Nat) : UInt8 × Bool :=
  let m := 10 * exponent.toNat
  if m ≥ 256 then (UInt8.ofNat m, true)
  else (UInt8.ofNat (d + m), decide (d + m ≥ 256))

/-- One iteration of the `while` loop of `ParseUnpacked` on a character other than `'\0'`. -/
def step (options : ParseOptions) (s : ParseLoop) (c : Char) : ParseLoop :=
  let s := if s.error.isNone then { s with position := s.position + 1 } else s
  match s.state with
  | .sign =>
    if c = '-' then { s with isNegative := true, state := .beforeFirstDig }
    else if c = '+' then { s with state := .beforeFirstDig }
    else if c = '0' then { s with state := .leadingZeros, beforeDigitCount := 1 }
    else if '1' ≤ c ∧ c ≤ '9' then
      { s with state := .beforeDec, before := digitOf c, beforeDigitCount := 1 }
    else if c = '.' then
      let s := if !options.allowBoundaryDot ∧ s.error.isNone then
          { s with error := some .boundaryDot } else s
      { s with state := .zerosAfterDec }
    else if isSpace c then
      if !options.allowSpaces then { s with state := .«end», error := some .space } else s
    else { s with state := .«end», error := some .wrongChar }
  | .beforeFirstDig =>
    if c = '0' then { s with state := .leadingZeros, beforeDigitCount := 1 }
    else if '1' ≤ c ∧ c ≤ '9' then
      { s with state := .beforeDec, before := digitOf c, beforeDigitCount := 1 }
    else if c = '.' then
      let s := if !options.allowBoundaryDot ∧ s.error.isNone then
          { s with error := some .boundaryDot } else s
      { s with state := .afterDec }
    else { s with state := .«end», error := some .wrongChar }
  | .leadingZeros =>
    if c = '0' then s
    else if '1' ≤ c ∧ c ≤ '9' then { s with state := .beforeDec, before := digitOf c }
    else if c = '.' then { s with state := .zerosAfterDec }
    else if c = 'e' ∨ c = 'E' then stateToExpSign options s
    else { s with state := .«end» }
  | .beforeDec =>
    if c.isDigit then
      if s.beforeDigitCount < kMaxDecimalDigits then
        { s with before := 10 * s.before + digitOf c, beforeDigitCount := s.beforeDigitCount + 1 }
      else if s.error.isNone then { s with error := some .overflow }
      else s
    else if c = '.' then { s with state := .zerosAfterDec }
    else if c = 'e' ∨ c = 'E' then stateToExpSign options s
    else { s with state := .«end» }
  | .zerosAfterDec =>
    if c = '0' then
      { s with zerosAfterDec := s.zerosAfterDec + 1, afterDigitCount := s.afterDigitCount + 1 }
    else afterDecChar options s c
  | .afterDec => afterDecChar options s c
  | .ignoringAfterDec =>
    if c.isDigit then s
    else if c = 'e' ∨ c = 'E' then stateToExpSign options s
    else { s with state := .«end» }
  | .expSign =>
    if c = '+' then { s with isNegativeExp := false, state := .expFirstDigit }
    else if c = '-' then { s with isNegativeExp := true, state := .expFirstDigit }
    else if c.isDigit then
      { s with exponent := UInt8.ofNat (digitOf c).toNat, state := .expDigits }
    else
      { s with error := if s.error.isNone then some .wrongChar else s.error, state := .«end» }
  | .expFirstDigit =>
    if c.isDigit then
      { s with exponent := UInt8.ofNat (digitOf c).toNat, state := .expDigits }
    else
      { s with state := .«end», error := if s.error.isNone then some .wrongChar else s.error }
  | .expDigits =>
    if c.isDigit then
      let (exponent, overflowed) := accumulateExponent s.exponent (digitOf c).toNat
      let s := { s with exponent := exponent }
      if overflowed then
        let s := if s.isNegativeExp ∧ !options.allowRounding ∧ s.error.isNone then
            { s with error := some .rounding } else s
        if !s.isNegativeExp ∧ s.error.isNone then { s with error := some .overflow } else s
      else s
    else { s with state := .«end» }
  | .«end» => s

/-- `StringCharSequence` over a `std::string_view`: the characters already read (last first)
and those still to read. -/
structure StringCharSequence where
  consumed : List Char
  rest : List Char
  deriving DecidableEq, Repr

/-- `Unget()`: step back over the last character read. -/
def StringCharSequence.unget (q : StringCharSequence) : StringCharSequence :=
  match q.consumed with
  | [] => q
  | c :: cs => ⟨cs, c :: q.rest⟩

/-- The `while` loop of `ParseUnpacked`: it stops at the end of the input, at a `'\0'`, or once
a character moves the machine to `kEnd`. -/
def parseLoop (options : ParseOptions) (s : ParseLoop) (consumed : List Char) :
    List Char → ParseLoop × StringCharSequence
  | [] => (s, ⟨consumed, []⟩)
  | c :: cs =>
    if c = '\x00' then (s, ⟨c :: consumed, cs⟩)
    else
      let s' := step options s c
      if s'.state = .«end» then (s', ⟨c :: consumed, cs⟩)
      else parseLoop options s' (c :: consumed) cs

/-- The scan for trailing characters after a number that ended on a character: every remaining
character must be a space, else `kTrailingJunk`. -/
def trailingScan (error : Option ParseErrorCode) (position : Int) :
    List Char → Option ParseErrorCode × Int
  | [] => (error, position)
  | c :: cs =>
    if c = '\x00' then (error, position)
    else if !isSpace c then (some .trailingJunk, position + 1)
    else trailingScan error (position + 1) cs

/-- The fields of `ParseUnpackedResult`. -/
structure ParseUnpackedResult where
  before : Int
  after : Int
  decimalDigits : UInt8
  isNegative : Bool
  exponent : UInt8
  isNegativeExponent : Bool
  error : Option ParseErrorCode
  errorPosition : Nat
  zerosAfterDec : Nat
  deriving DecidableEq, Repr

/-- The checks of `ParseUnpacked` after the loop. -/
def finishParse (options : ParseOptions) (s : ParseLoop) (q : StringCharSequence) : ParseLoop :=
  let s :=
    if s.state = .«end» ∧ s.error.isNone ∧ !options.allowTrailingJunk then
      let error := if !options.allowSpaces then some .space else s.error
      let (error, position) := trailingScan error (s.position - 1) q.unget.rest
      { s with error := error, position := position }
    else s
  let s := if s.error.isNone ∧ s.beforeDigitCount = 0 ∧ s.afterDigitCount = 0 then
      { s with error := some .noDigits } else s
  let s := if s.error.isNone ∧ s.state = .zerosAfterDec ∧ !options.allowBoundaryDot ∧
      s.afterDigitCount = 0 then { s with error := some .boundaryDot } else s
  let s := if s.error.isNone ∧ (s.state = .expSign ∨ s.state = .expFirstDigit) then
      { s with error := some .noExponentDigits } else s
  if s.zerosAfterDec ≥ kMaxDecimalDigits then
    { s with afterDigitCount := 0, after := 0, zerosAfterDec := 0 }
  else s

/-- `impl::ParseUnpacked(input, options)`. -/
def parseUnpacked (options : ParseOptions) (input : List Char) : ParseUnpackedResult :=
  let (s, q) := parseLoop options ParseLoop.init [] input
  let s := finishParse options s q
  ⟨s.before, s.after, s.afterDigitCount, s.isNegative, s.exponent, s.isNegativeExp, s.error,
    (s.position % 2 ^ 32).toNat, s.zerosAfterDec⟩

/-- `impl::Parse<Prec, RoundPolicy>(input, options)`. -/
def parse (prec : Nat) (rp : RoundPolicy) (options : ParseOptions) (input : List Char) :
    Except DecimalError (Decimal prec rp) := do
  let parsed := parseUnpacked options input
  if let some e := parsed.error then throw (.parse e parsed.errorPosition)
  if !options.allowRounding ∧ parsed.decimalDigits.toNat > prec then throw (.parse .rounding 0)
  if parsed.before ≥ kMaxInt64.tdiv (10 ^ prec) then throw (.parse .overflow 0)
  -- an all-zero fractional part is dropped
  let (after, decimalDigits, zerosAfterDec) :=
    if parsed.after = 0 ∧ parsed.decimalDigits.toNat > 0 then ((0 : Int), 0, 0)
    else (parsed.after, parsed.decimalDigits.toNat, parsed.zerosAfterDec)
  let (before, after) := if parsed.isNegative then (-parsed.before, -after)
    else (parsed.before, after)
  if parsed.exponent ≠ 0 then
    fromUnpackedWithExponent prec rp before after decimalDigits parsed.exponent.toNat
      parsed.isNegativeExponent zerosAfterDec
  else
    fromUnpackedPrec prec rp before after decimalDigits

/-- The strict constructor `Decimal(std::string_view)`. -/
def Decimal.fromString (prec : Nat) (rp : RoundPolicy) (input : List Char) :
    Except DecimalError (Decimal prec rp) :=
  parse prec rp .kNone input

/-- `Decimal::FromStringPermissive`. -/
def Decimal.fromStringPermissive (prec : Nat) (rp : RoundPolicy) (input : List Char) :
    Except DecimalError (Decimal prec rp) :=
  parse prec rp .permissive input

/-- At `Prec = 0` the tie `1.5` is rounded by the parity of the fractional quotient `5 / 10`
alone: `FromStringPermissive` gives `1`, where rounding half to even gives `2`. -/
theorem fromStringPermissive_halfEven_tie :
    Decimal.fromStringPermissive 0 .halfEven ['1', '.', '5'] = .ok (Decimal.fromUnbiased 1) ∧
      RoundPolicy.halfEven.mode.round ((3 : ℚ) / 2 * 10 ^ 0) = 2 := by
  refine ⟨by decide, ?_⟩
  have htie : (3 : ℚ) / 2 * 10 ^ 0 = ((1 : ℤ) : ℚ) + 1 / 2 := by norm_num
  rw [htie]
  change Rounding.Mode.halfEven.round _ = _
  rw [Rounding.round_halfEven_of_tie]
  decide

end Decimal64

end Userver
