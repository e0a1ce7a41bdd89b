import Userver.Lib.CType
import Userver.Lib.Codec

/-!
# URL encoding, its two decoders and the query-string splitter

`http::UrlEncode` (`url.cpp`) writes letters, digits and nine punctuation bytes as they are and
every other byte as `%` with two upper-case hex digits, which it computes from the `int` a signed
`char` promotes to.  `http::MakeQuery` joins `key=value` pairs with `&`, both sides encoded.  Two
decoders read the encoding back: the deprecated `http::UrlDecode` (`impl::UrlDecode`), lenient
about a `%` without two digits after it, and `http::parser::UrlDecode`, which throws there and
decodes the two digits with `utils::encoding::FromHex`.  `http::parser::ParseAndConsumeArgs`
splits a query at `&` and the first `=` with pointers into it and hands each pair with a
non-empty key to its handler, decoded; the model returns the handler's calls in order.

* `Impl.urlDecode_urlEncode`, `Parser.urlDecode_urlEncode`: both decoders read an encoded string
  back as the string.
* `Parser.parseAndConsumeArgs_makeQuery`: the splitter calls the handler once for each pair with
  a non-empty key, in order, with the pair itself, and never throws.
-/

namespace Userver

namespace Http

open CType

/-! ## Encoding -/

/-- The punctuation `UrlEncodeTo` copies as it is: `-_.!~*()` and the apostrophe (`39`). -/
def kUrlSafePunctuation : List UInt8 := ascii "-_.!~*()" ++ [39]

/-- A hex digit of `UrlEncodeTo`, from the nibble held in a `char`: `'A' - 10` added above `9`,
`'0'` otherwise. -/
def hexDigitOfNibble (nibble : Int8) : UInt8 :=
  (if nibble > 9 then nibble + (65 - 10) else nibble + 48).toUInt8

/-- `UrlEncodeTo` of one `char`: a letter, a digit or safe punctuation as it is, any other byte
as `%` and the hex digits of `(symbol & 0xF0) / 16` and `symbol & 0x0F`, taken on the `int` the
signed `char` promotes to. -/
def urlEncodeByte (symbol : UInt8) : List UInt8 :=
  if isAlnum symbol then [symbol]
  else if symbol ∈ kUrlSafePunctuation then [symbol]
  else
    let promoted : Int32 := symbol.toInt8.toInt32
    [37, hexDigitOfNibble ((promoted &&& 0xF0) / 16).toInt8,
      hexDigitOfNibble (promoted &&& 0x0F).toInt8]

/-- `UrlEncodeTo`: the encoding of `inputString` appended to `result`. -/
def urlEncodeTo (inputString result : List UInt8) : List UInt8 :=
  result ++ inputString.flatMap urlEncodeByte

/-- `UrlEncode`. -/
def urlEncode (inputString : List UInt8) : List UInt8 := urlEncodeTo inputString []

/-- One iteration of `DoMakeQueryTo`'s loop, on the result so far and `first`: a `&` unless
the pair is the first, then `key=value`. -/
def makeQueryStep (acc : List UInt8 × Bool) (pair : List UInt8 × List UInt8) : List UInt8 × Bool :=
  let result := if acc.2 then acc.1 else acc.1 ++ [38]
  (urlEncodeTo pair.2 (urlEncodeTo pair.1 result ++ [61]), false)

/-- `DoMakeQueryTo`: `key=value` for each pair in order, joined by `&`. -/
def doMakeQueryTo (pairs : List (List UInt8 × List UInt8)) (result : List UInt8) :
    List UInt8 :=
  (pairs.foldl makeQueryStep (result, true)).1

/-- `MakeQuery` of a vector or an initializer list of pairs, which keep their order. -/
def makeQuery (queryArgs : List (List UInt8 × List UInt8)) : List UInt8 :=
  doMakeQueryTo queryArgs []

theorem urlEncodeTo_eq (inputString result : List UInt8) :
    urlEncodeTo inputString result = result ++ urlEncode inputString := rfl

/-- The text `DoMakeQueryTo` writes for one pair: the key, `=` and the value, encoded. -/
def querySegment (pair : List UInt8 × List UInt8) : List UInt8 :=
  urlEncode pair.1 ++ 61 :: urlEncode pair.2

/-- After the first pair, each pair is written behind a `&`. -/
theorem foldl_makeQueryStep (qs : List (List UInt8 × List UInt8)) :
    ∀ r : List UInt8, qs.foldl makeQueryStep (r, false) =
      (r ++ qs.flatMap fun q => 38 :: querySegment q, false) := by
  induction qs with
  | nil => intro r; simp
  | cons q qs ih =>
    intro r
    rw [List.foldl_cons, makeQueryStep]
    simp only [Bool.false_eq_true, if_false, urlEncodeTo_eq]
    rw [ih]
    simp [querySegment]

/-- The first pair is written as it is and every later one behind a `&`. -/
theorem doMakeQueryTo_cons (p : List UInt8 × List UInt8) (ps : List (List UInt8 × List UInt8))
    (result : List UInt8) :
    doMakeQueryTo (p :: ps) result =
      result ++ querySegment p ++ ps.flatMap fun q => 38 :: querySegment q := by
  rw [doMakeQueryTo, List.foldl_cons, makeQueryStep]
  simp only [if_true, urlEncodeTo_eq]
  rw [foldl_makeQueryStep]
  simp [querySegment]

/-! ### What an encoded byte is -/

/-- A byte that `UrlEncodeTo` writes as it is. -/
def IsUrlSafe (c : UInt8) : Prop := isAlnum c = true ∨ c ∈ kUrlSafePunctuation

instance (c : UInt8) : Decidable (IsUrlSafe c) := inferInstanceAs (Decidable (_ ∨ _))

theorem urlEncodeByte_of_safe {c : UInt8} (h : IsUrlSafe c) : urlEncodeByte c = [c] := by
  unfold urlEncodeByte
  rcases h with h | h
  · rw [if_pos h]
  · by_cases ha : isAlnum c = true
    · rw [if_pos ha]
    · rw [if_neg ha, if_pos h]

/-- The high hex digit `UrlEncodeTo` writes for a byte. -/
def hexHigh (c : UInt8) : UInt8 := hexDigitOfNibble ((c.toInt8.toInt32 &&& 0xF0) / 16).toInt8

/-- The low hex digit `UrlEncodeTo` writes for a byte. -/
def hexLow (c : UInt8) : UInt8 := hexDigitOfNibble (c.toInt8.toInt32 &&& 0x0F).toInt8

theorem urlEncodeByte_of_not_safe {c : UInt8} (h : ¬IsUrlSafe c) :
    urlEncodeByte c = [37, hexHigh c, hexLow c] := by
  unfold urlEncodeByte IsUrlSafe at *
  rw [if_neg fun ha => h (.inl ha), if_neg fun hp => h (.inr hp)]
  rfl

set_option maxRecDepth 4096 in
/-- No safe byte is `%`, `+`, `&` or `=`. -/
theorem safe_ne : ∀ c : UInt8, IsUrlSafe c → c ≠ 37 ∧ c ≠ 43 ∧ c ≠ 38 ∧ c ≠ 61 := by
  decide

set_option maxRecDepth 4096 in
/-- The hex digits of a byte are upper-case hex digits, none of them `%`, `+`, `&` or `=`. -/
theorem hexDigits_ne : ∀ c : UInt8,
    hexHigh c ≠ 37 ∧ hexHigh c ≠ 43 ∧ hexHigh c ≠ 38 ∧ hexHigh c ≠ 61 ∧
      hexLow c ≠ 37 ∧ hexLow c ≠ 43 ∧ hexLow c ≠ 38 ∧ hexLow c ≠ 61 := by
  decide

/-- An encoded byte never holds `&` or `=`. -/
theorem not_mem_urlEncodeByte (c : UInt8) : 38 ∉ urlEncodeByte c ∧ 61 ∉ urlEncodeByte c := by
  by_cases h : IsUrlSafe c
  · have := safe_ne c h
    rw [urlEncodeByte_of_safe h]
    simp only [List.mem_singleton]
    grind
  · have := hexDigits_ne c
    rw [urlEncodeByte_of_not_safe h]
    simp only [List.mem_cons, List.not_mem_nil, or_false]
    grind

theorem urlEncode_ne_nil {s : List UInt8} (h : s ≠ []) : urlEncode s ≠ [] := by
  obtain ⟨c, rest, rfl⟩ := List.exists_cons_of_ne_nil h
  by_cases hc : IsUrlSafe c <;>
    simp [urlEncode, urlEncodeTo, urlEncodeByte_of_safe, urlEncodeByte_of_not_safe, hc]

/-- An encoded string holds no `&` and no `=`. -/
theorem ne_of_mem_urlEncode {s : List UInt8} {c : UInt8} (h : c ∈ urlEncode s) :
    c ≠ 38 ∧ c ≠ 61 := by
  obtain ⟨b, -, hb⟩ := List.mem_flatMap.1 (by simpa [urlEncode, urlEncodeTo] using h)
  obtain ⟨h38, h61⟩ := not_mem_urlEncodeByte b
  exact ⟨fun hc => h38 (hc ▸ hb), fun hc => h61 (hc ▸ hb)⟩

theorem urlEncode_eq_nil_iff {s : List UInt8} : urlEncode s = [] ↔ s = [] := by
  refine ⟨fun h => ?_, by rintro rfl; rfl⟩
  by_contra hs
  exact urlEncode_ne_nil hs h

/-- Without a `%` in it, the encoding of a string is the string. -/
theorem urlEncode_of_not_mem {s : List UInt8} (h : 37 ∉ urlEncode s) : urlEncode s = s := by
  induction s with
  | nil => rfl
  | cons c rest ih =>
    simp only [urlEncode, urlEncodeTo, List.nil_append, List.flatMap_cons, List.mem_append] at h ih ⊢
    by_cases hc : IsUrlSafe c
    · rw [urlEncodeByte_of_safe hc, ih fun hr => h (.inr hr)]
      rfl
    · rw [urlEncodeByte_of_not_safe hc] at h
      exact absurd (.inl List.mem_cons_self) h

/-! ## `impl::UrlDecode` -/

namespace Impl

/-- The value of a hex digit as `impl::UrlDecode` computes it on the promoted `char`:
`(c & 0xDF) - 'A' + 10` from `'A'` on, `c - '0'` below. -/
def hexValue (c : UInt8) : Int32 :=
  let promoted : Int32 := c.toInt8.toInt32
  if c.toInt8 ≥ 65 then (promoted &&& 0xDF) - 65 + 10 else promoted - 48

/-- A byte other than `%` as both decoders write it: `+` is a blank. -/
def plainByte (c : UInt8) : UInt8 := if c = 43 then 32 else c

/-- The loop of `impl::UrlDecode` over the rest of the input, `result` the bytes written so far:
a `%` with at least two bytes after it is the byte of their digits (the `int` cast to `char`),
a `%` closer to the end stays, and `+` is a blank. -/
def urlDecodeLoop : List UInt8 → List UInt8 → List UInt8
  | result, [] => result
  | result, c :: f :: s :: rest =>
    if c = 37 then urlDecodeLoop (result ++ [(hexValue f * 16 + hexValue s).toInt8.toUInt8]) rest
    else urlDecodeLoop (result ++ [plainByte c]) (f :: s :: rest)
  | result, c :: rest => urlDecodeLoop (result ++ [plainByte c]) rest

/-- `impl::UrlDecode`, which `http::UrlDecode` calls. -/
def urlDecode (range : List UInt8) : List UInt8 := urlDecodeLoop [] range

theorem plainByte_of_safe {c : UInt8} (h : IsUrlSafe c) : plainByte c = c := by
  have hne := (safe_ne c h).2.1
  simp [plainByte, hne]

/-- A byte other than `%` is written as a plain byte, however close to the end it is. -/
theorem urlDecodeLoop_cons_of_ne {c : UInt8} (hc : c ≠ 37) (result tail : List UInt8) :
    urlDecodeLoop result (c :: tail) = urlDecodeLoop (result ++ [plainByte c]) tail := by
  rcases tail with _ | ⟨f, _ | ⟨s, rest⟩⟩
  · rfl
  · rfl
  · rw [urlDecodeLoop, if_neg hc]

set_option maxRecDepth 4096 in
/-- The two digits `UrlEncodeTo` writes for a byte decode to that byte. -/
theorem hexValue_hexDigits : ∀ c : UInt8,
    (hexValue (hexHigh c) * 16 + hexValue (hexLow c)).toInt8.toUInt8 = c := by
  decide

/-- The loop reads the encoding of `s` as `s`, whatever follows it. -/
theorem urlDecodeLoop_flatMap (s : List UInt8) :
    ∀ result rest, urlDecodeLoop result (s.flatMap urlEncodeByte ++ rest) =
      urlDecodeLoop (result ++ s) rest := by
  induction s with
  | nil => intro result rest; simp
  | cons c s ih =>
    intro result rest
    rw [List.flatMap_cons, List.append_assoc]
    by_cases hc : IsUrlSafe c
    · -- a safe byte is copied
      rw [urlEncodeByte_of_safe hc, List.singleton_append,
        urlDecodeLoop_cons_of_ne (safe_ne c hc).1, plainByte_of_safe hc, ih]
      simp
    · -- any other byte comes back from its two hex digits
      rw [urlEncodeByte_of_not_safe hc, List.cons_append, List.cons_append, List.cons_append,
        List.nil_append, urlDecodeLoop, if_pos rfl, hexValue_hexDigits, ih]
      simp

/-- `http::UrlDecode(http::UrlEncode(s)) == s`. -/
theorem urlDecode_urlEncode (s : List UInt8) : urlDecode (urlEncode s) = s := by
  have hloop := urlDecodeLoop_flatMap s [] []
  rw [List.append_nil, List.nil_append] at hloop
  rw [urlDecode, urlEncode, urlEncodeTo, List.nil_append, hloop, urlDecodeLoop]

end Impl

/-! ## `utils::encoding::FromHex` -/

namespace Encoding

/-- `detail::IsXDigit`. -/
def isXDigit (c : UInt8) : Bool := isDigit c || (97 ≤ c && c ≤ 102) || (65 ≤ c && c ≤ 70)

/-- `detail::GetXDigitValue`: `255` for a byte that is not a hex digit. -/
def getXDigitValue (c : UInt8) : UInt8 :=
  if isDigit c then c - 48
  else if 97 ≤ c ∧ c ≤ 102 then c - 87
  else if 65 ≤ c ∧ c ≤ 70 then c - 55
  else 255

/-- `FromHex(encoded, out)`: the bytes of the leading pairs of hex digits appended to `out` (which
is not cleared, whatever its comment says), and the number of characters read. -/
def fromHex : List UInt8 → List UInt8 → List UInt8 × Nat
  | out, a :: b :: rest =>
    if isXDigit a && isXDigit b then
      let r := fromHex (out ++ [(getXDigitValue a <<< 4) ||| getXDigitValue b]) rest
      (r.1, r.2 + 2)
    else (out, 0)
  | out, _ => (out, 0)

end Encoding

/-! ## `http::parser::UrlDecode` and `ParseAndConsumeArgs` -/

namespace Parser

/-- `kMaxOutputLength` of the error message. -/
def kMaxOutputLength : Nat := 100

/-- The text of the `std::runtime_error` thrown at the `%` that starts `tail`: at most three bytes
from there, and the input, cut to `kMaxOutputLength` bytes and marked `<...>`. -/
def invalidPercentMessage (url tail : List UInt8) : List UInt8 :=
  let dataShort := if url.length > kMaxOutputLength then url.take kMaxOutputLength ++ ascii "<...>"
    else url
  ascii "invalid percent-encoding sequence " ++ [39] ++ tail.take 3 ++ [39] ++ ascii " in input " ++
    [39] ++ dataShort ++ [39]

/-- The loop of `parser::UrlDecode` over the rest of `url`, `res` the bytes written so far: a `%`
must be followed by two hex digits, which `FromHex` appends, and `+` is a blank. -/
def urlDecodeLoop (url : List UInt8) : List UInt8 → List UInt8 → Except (List UInt8) (List UInt8)
  | res, [] => .ok res
  | res, c :: a :: b :: rest =>
    if c = 37 then
      if (Encoding.fromHex res [a, b]).2 = 2 then urlDecodeLoop url (Encoding.fromHex res [a, b]).1 rest
      else .error (invalidPercentMessage url (c :: a :: b :: rest))
    else urlDecodeLoop url (res ++ [Impl.plainByte c]) (a :: b :: rest)
  | res, c :: rest =>
    -- fewer than two bytes after `c`
    if c = 37 then .error (invalidPercentMessage url (c :: rest))
    else urlDecodeLoop url (res ++ [Impl.plainByte c]) rest

/-- `parser::UrlDecode`: the input itself when it has no `%` and no `+` (the fast path), the loop
otherwise. -/
def urlDecode (url : List UInt8) : Except (List UInt8) (List UInt8) :=
  if !url.contains 37 && !url.contains 43 then .ok url else urlDecodeLoop url [] url

/-- `FromHex` of two bytes: one byte and both read when they are hex digits, nothing otherwise. -/
theorem fromHex_pair (res : List UInt8) (a b : UInt8) :
    Encoding.fromHex res [a, b] =
      if Encoding.isXDigit a && Encoding.isXDigit b then
        (res ++ [(Encoding.getXDigitValue a <<< 4) ||| Encoding.getXDigitValue b], 2)
      else (res, 0) := by
  rw [Encoding.fromHex]
  split <;> rfl

set_option maxRecDepth 4096 in
/-- `FromHex` reads the two digits `UrlEncodeTo` writes for a byte as that byte. -/
theorem fromHex_hexDigits : ∀ c : UInt8,
    (Encoding.isXDigit (hexHigh c) && Encoding.isXDigit (hexLow c)) = true ∧
      ((Encoding.getXDigitValue (hexHigh c) <<< 4) ||| Encoding.getXDigitValue (hexLow c)) = c := by
  decide

theorem urlDecodeLoop_cons_of_ne (url : List UInt8) {c : UInt8} (hc : c ≠ 37)
    (res tail : List UInt8) :
    urlDecodeLoop url res (c :: tail) = urlDecodeLoop url (res ++ [Impl.plainByte c]) tail := by
  rcases tail with _ | ⟨f, _ | ⟨s, rest⟩⟩
  · simp [urlDecodeLoop, hc]
  · simp [urlDecodeLoop, hc]
  · rw [urlDecodeLoop, if_neg hc]

theorem urlDecodeLoop_percent (url res : List UInt8) (c : UInt8) (rest : List UInt8) :
    urlDecodeLoop url res (37 :: hexHigh c :: hexLow c :: rest) =
      urlDecodeLoop url (res ++ [c]) rest := by
  obtain ⟨hdigits, hvalue⟩ := fromHex_hexDigits c
  rw [urlDecodeLoop, if_pos rfl, fromHex_pair, if_pos hdigits, if_pos rfl, hvalue]

/-- The loop reads the encoding of `s` as `s`, whatever follows it. -/
theorem urlDecodeLoop_flatMap (url s : List UInt8) :
    ∀ res rest, urlDecodeLoop url res (s.flatMap urlEncodeByte ++ rest) =
      urlDecodeLoop url (res ++ s) rest := by
  induction s with
  | nil => intro res rest; simp
  | cons c s ih =>
    intro res rest
    rw [List.flatMap_cons, List.append_assoc]
    by_cases hc : IsUrlSafe c
    · rw [urlEncodeByte_of_safe hc, List.singleton_append,
        urlDecodeLoop_cons_of_ne url (safe_ne c hc).1, Impl.plainByte_of_safe hc, ih]
      simp
    · rw [urlEncodeByte_of_not_safe hc, List.cons_append, List.cons_append, List.cons_append,
        List.nil_append, urlDecodeLoop_percent, ih]
      simp

/-- `parser::UrlDecode(UrlEncode(s))` returns `s`, by the fast path or by the loop. -/
theorem urlDecode_urlEncode (s : List UInt8) : urlDecode (urlEncode s) = .ok s := by
  unfold urlDecode
  split_ifs with hfast
  · -- no `%` in the encoding: every byte was copied
    have h37 : 37 ∉ urlEncode s := by
      have hboth : 37 ∉ urlEncode s ∧ 43 ∉ urlEncode s := by simpa using hfast
      exact hboth.1
    rw [urlEncode_of_not_mem h37]
  · calc urlDecodeLoop (urlEncode s) [] (urlEncode s)
        = urlDecodeLoop (urlEncode s) [] (s.flatMap urlEncodeByte ++ []) := by
          rw [List.append_nil]
          rfl
      _ = urlDecodeLoop (urlEncode s) ([] ++ s) [] := urlDecodeLoop_flatMap _ s [] []
      _ = .ok s := by rw [List.nil_append, urlDecodeLoop]

/-- The state of `ParseAndConsumeArgs`'s loop: `key_begin`, `key_end` and `parse_key`, with the
pointers as offsets into the query, and the handler's calls so far. -/
structure ArgsState where
  keyBegin : Nat
  keyEnd : Nat
  parseKey : Bool
  calls : List (List UInt8 × List UInt8)

/-- The end of a pair at `ptr`: after a `=`, the handler is called with the key and the value
decoded, unless the key is empty. -/
def consumePair (args : List UInt8) (s : ArgsState) (ptr : Nat) :
    Except (List UInt8) (List (List UInt8 × List UInt8)) :=
  if !s.parseKey then
    let valueBegin := s.keyEnd + 1
    if s.keyBegin < s.keyEnd ∧ valueBegin ≤ ptr then do
      let key ← urlDecode ((args.drop s.keyBegin).take (s.keyEnd - s.keyBegin))
      let value ← urlDecode ((args.drop valueBegin).take (ptr - valueBegin))
      pure (s.calls ++ [(key, value)])
    else pure s.calls
  else pure s.calls

/-- One iteration of `ParseAndConsumeArgs`'s loop, at `ptr` (`args.length` is `end`). -/
def argsStep (args : List UInt8) (s : ArgsState) (ptr : Nat) : Except (List UInt8) ArgsState :=
  if ptr = args.length ∨ args[ptr]? = some 38 then do
    let calls ← consumePair args s ptr
    pure ⟨ptr + 1, s.keyEnd, true, calls⟩
  else if args[ptr]? = some 61 ∧ s.parseKey = true then pure { s with parseKey := false, keyEnd := ptr }
  else pure s

/-- `ParseAndConsumeArgs`: the loop for `ptr` from the begin to the end of `args` inclusive, and
the handler's calls it made. -/
def parseAndConsumeArgs (args : List UInt8) :
    Except (List UInt8) (List (List UInt8 × List UInt8)) :=
  ArgsState.calls <$> (List.range (args.length + 1)).foldlM (argsStep args) ⟨0, 0, true, []⟩

/-! ### The splitter over a query `MakeQuery` wrote -/

section Splitter

variable {args : List UInt8}

/-- A byte inside a pair that is neither `&` nor, while the key is read, `=` changes nothing. -/
theorem argsStep_of_plain {s : ArgsState} {ptr : Nat} {c : UInt8} (hc : args[ptr]? = some c)
    (hamp : c ≠ 38) (heq : s.parseKey = true → c ≠ 61) : argsStep args s ptr = .ok s := by
  have hptr : ptr ≠ args.length := by
    intro hlen
    rw [hlen, List.getElem?_eq_none (le_refl _)] at hc
    cases hc
  have hend : ¬(ptr = args.length ∨ args[ptr]? = some 38) := by
    rintro (hlen | hamp')
    · exact hptr hlen
    · rw [hc] at hamp'
      exact hamp (Option.some.inj hamp')
  have hkey : ¬(args[ptr]? = some 61 ∧ s.parseKey = true) := by
    rintro ⟨heq', hk⟩
    rw [hc] at heq'
    exact heq hk (Option.some.inj heq')
  unfold argsStep
  rw [if_neg hend, if_neg hkey]
  rfl

/-- The first `=` of a pair ends its key. -/
theorem argsStep_of_equals {s : ArgsState} {ptr : Nat} (hc : args[ptr]? = some 61)
    (hk : s.parseKey = true) :
    argsStep args s ptr = .ok { s with parseKey := false, keyEnd := ptr } := by
  have hend : ¬(ptr = args.length ∨ args[ptr]? = some 38) := by
    rintro (hlen | hamp)
    · rw [hlen, List.getElem?_eq_none (le_refl _)] at hc
      cases hc
    · rw [hc] at hamp
      cases hamp
  unfold argsStep
  rw [if_neg hend, if_pos ⟨hc, hk⟩]
  rfl

/-- A `&` or the end finishes the pair. -/
theorem argsStep_of_end {s : ArgsState} {ptr : Nat}
    (h : ptr = args.length ∨ args[ptr]? = some 38) :
    argsStep args s ptr =
      consumePair args s ptr >>= fun calls => pure ⟨ptr + 1, s.keyEnd, true, calls⟩ := by
  unfold argsStep
  rw [if_pos h]

/-- A run of bytes that are neither `&` nor, while the key is read, `=` changes nothing. -/
theorem foldlM_argsStep_plain {s : ArgsState} (pre mid post : List UInt8)
    (h : args = pre ++ mid ++ post) (hmid : ∀ c ∈ mid, c ≠ 38 ∧ (s.parseKey = true → c ≠ 61)) :
    (List.range' pre.length mid.length).foldlM (argsStep args) s = .ok s := by
  induction mid generalizing pre with
  | nil => rfl
  | cons c mid ih =>
    have hc : args[pre.length]? = some c := by
      rw [h]
      simp
    have hrest := ih (pre ++ [c]) (by rw [h]; simp) fun d hd => hmid d (List.mem_cons_of_mem c hd)
    rw [List.length_append, List.length_singleton] at hrest
    rw [List.length_cons, List.range'_succ, List.foldlM_cons,
      argsStep_of_plain hc (hmid c List.mem_cons_self).1 (hmid c List.mem_cons_self).2,
      Codec.ok_bind, hrest]

/-- The handler's call at the end of a pair `key=value`: none for an empty key. -/
theorem consumePair_of_pair (pre key value post : List UInt8)
    (h : args = pre ++ (key ++ 61 :: value) ++ post) (calls : List (List UInt8 × List UInt8)) :
    consumePair args ⟨pre.length, pre.length + key.length, false, calls⟩
        (pre.length + (key ++ 61 :: value).length) =
      if key = [] then .ok calls
      else urlDecode key >>= fun k => urlDecode value >>= fun v => pure (calls ++ [(k, v)]) := by
  have hkey : (args.drop pre.length).take key.length = key := by
    rw [h]
    simp
  have hvalue : (args.drop (pre.length + key.length + 1)).take
      (pre.length + (key ++ 61 :: value).length - (pre.length + key.length + 1)) = value := by
    have hargs : args = (pre ++ key ++ [61]) ++ (value ++ post) := by
      rw [h]
      simp
    have hlen : (pre ++ key ++ [61]).length = pre.length + key.length + 1 := by
      simp only [List.length_append, List.length_singleton]
    have hcount : pre.length + (key ++ 61 :: value).length - (pre.length + key.length + 1) =
        value.length := by
      simp only [List.length_append, List.length_cons]
      omega
    rw [hcount, ← hlen, hargs, List.drop_left, List.take_left]
  unfold consumePair
  by_cases hk : key = []
  · subst hk
    simp
    rfl
  · have hpos : 0 < key.length := List.length_pos_iff.2 hk
    rw [if_neg hk]
    simp only [Bool.not_false, if_true]
    rw [if_pos ⟨by omega, by simp⟩, Nat.add_sub_cancel_left, hkey, hvalue]

/-- The offsets a pair `key=value` and the `&` or the end after it take, from `a` on: the key,
the `=`, the value and the end. -/
theorem range'_pair (a k v : Nat) :
    List.range' a (k + (v + 1) + 1) =
      List.range' a k ++ [a + k] ++ List.range' (a + k + 1) v ++ [a + k + 1 + v] := by
  rw [show k + (v + 1) + 1 = k + (1 + (v + 1)) by omega, ← List.range'_append_1,
    ← List.range'_append_1, ← List.range'_append_1, List.range'_one, List.range'_one]
  simp only [List.append_assoc, List.cons_append]

/-- One pair `key=value` of the query, from the first byte of its key to the `&` or the end
after it: the key ends at the `=`, and the end of the pair calls the handler. -/
theorem foldlM_argsStep_pair {s : ArgsState} (pre key value post : List UInt8)
    (h : args = pre ++ (key ++ 61 :: value) ++ post) (hpost : post = [] ∨ post.head? = some 38)
    (hkey : ∀ c ∈ key, c ≠ 38 ∧ c ≠ 61) (hvalue : ∀ c ∈ value, c ≠ 38)
    (hparse : s.parseKey = true) (hbegin : s.keyBegin = pre.length) :
    (List.range' pre.length ((key ++ 61 :: value).length + 1)).foldlM (argsStep args) s =
      consumePair args ⟨pre.length, pre.length + key.length, false, s.calls⟩
          (pre.length + (key ++ 61 :: value).length) >>= fun calls =>
        pure ⟨pre.length + (key ++ 61 :: value).length + 1, pre.length + key.length, true, calls⟩ := by
  have hlen : (key ++ 61 :: value).length = key.length + (value.length + 1) := by simp
  -- the key: no `&` and no `=` in it
  have hkeyRun := foldlM_argsStep_plain (s := s) pre key (61 :: value ++ post)
    (h.trans (by simp)) fun c hc => ⟨(hkey c hc).1, fun _ => (hkey c hc).2⟩
  have hequals : args[pre.length + key.length]? = some 61 := by
    rw [h]
    simp
  -- the value: no `&` in it, and a `=` is a byte of it
  have hvalueRun := foldlM_argsStep_plain
    (s := { s with parseKey := false, keyEnd := pre.length + key.length })
    (pre ++ key ++ [61]) value post (h.trans (by simp)) fun c hc => ⟨hvalue c hc, by simp⟩
  have hvalueStart : (pre ++ key ++ [61]).length = pre.length + key.length + 1 := by
    simp only [List.length_append, List.length_singleton]
  rw [hvalueStart] at hvalueRun
  have hend : pre.length + key.length + 1 + value.length = args.length ∨
      args[pre.length + key.length + 1 + value.length]? = some 38 := by
    have hoff : pre.length + key.length + 1 + value.length = (pre ++ key ++ 61 :: value).length := by
      simp only [List.length_append, List.length_cons]
      omega
    rw [hoff]
    rcases post with _ | ⟨b, rest⟩
    · left
      rw [h]
      simp
    · right
      have hb : b = 38 := by
        rcases hpost with hnil | hhead
        · cases hnil
        · simpa using hhead
      rw [h, hb]
      simp
  rw [hlen, range'_pair]
  simp only [List.foldlM_append, List.foldlM_cons, List.foldlM_nil, bind_pure, bind_assoc]
  rw [hkeyRun, Codec.ok_bind, argsStep_of_equals hequals hparse, Codec.ok_bind, hvalueRun,
    Codec.ok_bind, argsStep_of_end hend, hbegin,
    show pre.length + (key.length + (value.length + 1)) = pre.length + key.length + 1 + value.length
      by omega]

/-- One pair as `MakeQuery` wrote it, followed by a `&` or the end: the handler is called with
the pair itself unless its key is empty. -/
theorem foldlM_argsStep_querySegment {s : ArgsState} (pre post : List UInt8)
    (p : List UInt8 × List UInt8) (h : args = pre ++ querySegment p ++ post)
    (hpost : post = [] ∨ post.head? = some 38) (hparse : s.parseKey = true)
    (hbegin : s.keyBegin = pre.length) :
    (List.range' pre.length ((querySegment p).length + 1)).foldlM (argsStep args) s =
      .ok ⟨pre.length + (querySegment p).length + 1, pre.length + (urlEncode p.1).length, true,
        s.calls ++ [p].filter fun q => !q.1.isEmpty⟩ := by
  rw [querySegment] at h ⊢
  rw [foldlM_argsStep_pair pre (urlEncode p.1) (urlEncode p.2) post h hpost
      (fun c hc => ne_of_mem_urlEncode hc) (fun c hc => (ne_of_mem_urlEncode hc).1) hparse hbegin,
    consumePair_of_pair pre (urlEncode p.1) (urlEncode p.2) post h s.calls]
  by_cases hk : p.1 = []
  · -- an empty key: no call
    rw [if_pos (urlEncode_eq_nil_iff.2 hk)]
    simp [hk]
  · rw [if_neg (fun he => hk (urlEncode_eq_nil_iff.1 he)), urlDecode_urlEncode, Codec.ok_bind,
      urlDecode_urlEncode, Codec.ok_bind]
    simp [hk]
    rfl

/-- The pairs of a query from some pair on, the state at its key: the handler is called for
each pair with a non-empty key, in order, and the loop ends past the end of the query. -/
theorem foldlM_argsStep_query (ps : List (List UInt8 × List UInt8)) :
    ∀ (p : List UInt8 × List UInt8) (pre : List UInt8) (s : ArgsState),
      args = pre ++ (querySegment p ++ ps.flatMap fun q => 38 :: querySegment q) →
      s.parseKey = true → s.keyBegin = pre.length →
      ∃ e, (List.range' pre.length
          ((querySegment p ++ ps.flatMap fun q => 38 :: querySegment q).length + 1)).foldlM
            (argsStep args) s =
        .ok ⟨args.length + 1, e, true, s.calls ++ (p :: ps).filter fun q => !q.1.isEmpty⟩ := by
  induction ps with
  | nil =>
    intro p pre s h hparse hbegin
    rw [List.flatMap_nil, List.append_nil] at h ⊢
    refine ⟨pre.length + (urlEncode p.1).length, ?_⟩
    rw [foldlM_argsStep_querySegment pre [] p (by rw [h, List.append_nil]) (.inl rfl) hparse hbegin,
      h, List.length_append]
  | cons q ps ih =>
    intro p pre s h hparse hbegin
    -- the first pair up to its `&`, then the rest of the query from the next key
    have hsplit : List.range' pre.length
        ((querySegment p ++ (q :: ps).flatMap fun q => 38 :: querySegment q).length + 1) =
        List.range' pre.length ((querySegment p).length + 1) ++
          List.range' (pre ++ querySegment p ++ [38]).length
            ((querySegment q ++ ps.flatMap fun q => 38 :: querySegment q).length + 1) := by
      have hcount : (querySegment p ++ (q :: ps).flatMap fun q => 38 :: querySegment q).length + 1 =
          ((querySegment p).length + 1) +
            ((querySegment q ++ ps.flatMap fun q => 38 :: querySegment q).length + 1) := by
        simp only [List.flatMap_cons, List.length_append, List.length_cons]
        omega
      have hstart : (pre ++ querySegment p ++ [38]).length =
          pre.length + ((querySegment p).length + 1) := by
        simp only [List.length_append, List.length_singleton]
        omega
      rw [hcount, hstart, List.range'_append_1]
    have hfirst := foldlM_argsStep_querySegment (s := s) pre
      (38 :: (querySegment q ++ ps.flatMap fun q => 38 :: querySegment q)) p
      (h.trans (by simp)) (.inr rfl) hparse hbegin
    have hnext : pre.length + (querySegment p).length + 1 = (pre ++ querySegment p ++ [38]).length := by
      simp only [List.length_append, List.length_singleton]
    obtain ⟨e, hrest⟩ := ih q (pre ++ querySegment p ++ [38])
      ⟨pre.length + (querySegment p).length + 1, pre.length + (urlEncode p.1).length, true,
        s.calls ++ [p].filter fun q => !q.1.isEmpty⟩
      (h.trans (by simp)) rfl hnext
    refine ⟨e, ?_⟩
    rw [hsplit, List.foldlM_append, hfirst, Codec.ok_bind, hrest]
    -- the calls of the first pair and of the rest are those of the whole list
    simp only [List.append_assoc, ← List.filter_append]
    rfl

end Splitter

/-- `ParseAndConsumeArgs(MakeQuery(pairs))` calls the handler once for every pair with a
non-empty key, in order, with the key and the value of the pair, and throws nothing; and
`http::UrlDecode(http::UrlEncode(s)) == s`. -/
theorem parseAndConsumeArgs_makeQuery (pairs : List (List UInt8 × List UInt8)) :
    parseAndConsumeArgs (makeQuery pairs) = .ok (pairs.filter fun p => !p.1.isEmpty) ∧
      ∀ s : List UInt8, Impl.urlDecode (urlEncode s) = s := by
  refine ⟨?_, Impl.urlDecode_urlEncode⟩
  cases pairs with
  | nil => rfl
  | cons p ps =>
    have hquery : makeQuery (p :: ps) =
        querySegment p ++ ps.flatMap fun q => 38 :: querySegment q := by
      rw [makeQuery, doMakeQueryTo_cons, List.nil_append]
    obtain ⟨e, hrun⟩ := @foldlM_argsStep_query (makeQuery (p :: ps)) ps p [] ⟨0, 0, true, []⟩
      (by rw [hquery, List.nil_append]) rfl rfl
    rw [List.length_nil, ← hquery] at hrun
    rw [parseAndConsumeArgs, List.range_eq_range', hrun]
    rfl

end Parser

end Http

end Userver
