import Userver.Lib.Utf8

/-!
# UTF-8 text: validation, counting and cutting

`text_light.cpp` checks UTF-8 against the table of well-formed byte sequences of the Unicode
Standard (`kWellFormed1Bytes` .. `kWellFormed4Bytes`), one code point at a time: the length of a
code point is read off its first byte (`CodePointLengthByFirstByte`) and its bytes are checked
against that length's rows (`IsWellFormedCodePoint`).  `IsUtf8` runs that check over a whole text
and `GetCodePointsCount` counts the code points it steps over.  `GetTextPosByCodePointPos`,
`TakePrefix` and `RemovePrefix` step over code points the same way, and `TrimTruncatedEnding`
drops a code point cut short at the end of a text, looking back at most three bytes.

A text is the list of its bytes; a code point's encoding is `String.utf8EncodeChar` of a `Char`,
the shortest-form UTF-8 encoding of a Unicode scalar value.

* `isUtf8_iff`: `IsUtf8` holds of a text exactly when it is the concatenation of the encodings of
  a list of characters, and `GetCodePointsCount` then returns that list's length
  (`getCodePointsCount_flatMap`), and throws otherwise.
* `getTextPosByCodePointPos_flatMap`, `takePrefix_flatMap`, `removePrefix_flatMap`: on a valid
  text, the first `k` code points end at the `k`-th boundary.
* `trimTruncatedEnding_prefix`: a byte prefix of a valid text loses exactly the bytes after its
  last boundary, whether a code point is cut after one, two or three of its bytes, and nothing
  when it ends on a boundary, also after a four-byte code point whose first byte is beyond the
  three bytes looked at.
-/

namespace Userver

namespace Utils

namespace Text

open Utf8

/-! ## The model -/

/-- `InclusiveRange{from, to}`. -/
structure InclusiveRange where
  lo : UInt8
  hi : UInt8
  deriving DecidableEq, Repr

/-- `kWellFormed1Bytes`: the rows of Table 3-7 for one byte. -/
def kWellFormed1Bytes : List (List InclusiveRange) :=
  [[⟨0x00, 0x7f⟩]]

/-- `kWellFormed2Bytes`. -/
def kWellFormed2Bytes : List (List InclusiveRange) :=
  [[⟨0xc2, 0xdf⟩, ⟨0x80, 0xbf⟩]]

/-- `kWellFormed3Bytes`. -/
def kWellFormed3Bytes : List (List InclusiveRange) :=
  [[⟨0xe0, 0xe0⟩, ⟨0xa0, 0xbf⟩, ⟨0x80, 0xbf⟩],
   [⟨0xe1, 0xec⟩, ⟨0x80, 0xbf⟩, ⟨0x80, 0xbf⟩],
   [⟨0xed, 0xed⟩, ⟨0x80, 0x9f⟩, ⟨0x80, 0xbf⟩],
   [⟨0xee, 0xef⟩, ⟨0x80, 0xbf⟩, ⟨0x80, 0xbf⟩]]

/-- `kWellFormed4Bytes`. -/
def kWellFormed4Bytes : List (List InclusiveRange) :=
  [[⟨0xf0, 0xf0⟩, ⟨0x90, 0xbf⟩, ⟨0x80, 0xbf⟩, ⟨0x80, 0xbf⟩],
   [⟨0xf1, 0xf3⟩, ⟨0x80, 0xbf⟩, ⟨0x80, 0xbf⟩, ⟨0x80, 0xbf⟩],
   [⟨0xf4, 0xf4⟩, ⟨0x80, 0x8f⟩, ⟨0x80, 0xbf⟩, ⟨0x80, 0xbf⟩]]

/-- The `from` of the first column of the first row of a table. -/
def firstFrom (table : List (List InclusiveRange)) : UInt8 :=
  ((table.getD 0 []).getD 0 ⟨0, 0⟩).lo

/-- `kMinFirstByteValueFor2ByteCodePoint = kWellFormed2Bytes[0][0].from`. -/
def kMinFirstByteValueFor2ByteCodePoint : UInt8 := firstFrom kWellFormed2Bytes

/-- `kMinFirstByteValueFor3ByteCodePoint`. -/
def kMinFirstByteValueFor3ByteCodePoint : UInt8 := firstFrom kWellFormed3Bytes

/-- `kMinFirstByteValueFor4ByteCodePoint`. -/
def kMinFirstByteValueFor4ByteCodePoint : UInt8 := firstFrom kWellFormed4Bytes

/-- `IsValidBytes(bytes, range)`: some row of the table holds each of the first bytes in its
column's range.  The caller has checked that there are as many bytes as columns. -/
def isValidBytes (bytes : List UInt8) (table : List (List InclusiveRange)) : Bool :=
  table.any fun row => (row.zip bytes).all fun (range, byte) => !(range.lo > byte || range.hi < byte)

/-- `CodePointLengthByFirstByte(c)`: `0x80..0xC1`, which start no code point, count as one byte
and `0xF5..0xFF` as four. -/
def codePointLengthByFirstByte (c : UInt8) : Nat :=
  if c < kMinFirstByteValueFor2ByteCodePoint then 1
  else if c < kMinFirstByteValueFor3ByteCodePoint then 2
  else if c < kMinFirstByteValueFor4ByteCodePoint then 3
  else 4

/-- `IsWellFormedCodePoint(bytes, length)`, given the `length` bytes from `bytes` on. -/
def isWellFormedCodePoint (bytes : List UInt8) : Bool :=
  match bytes with
  | [] => false
  | first :: _ =>
    let codePointLength := codePointLengthByFirstByte first
    if bytes.length < codePointLength then false
    else
      match codePointLength with
      | 1 => isValidBytes bytes kWellFormed1Bytes
      | 2 => isValidBytes bytes kWellFormed2Bytes
      | 3 => isValidBytes bytes kWellFormed3Bytes
      | 4 => isValidBytes bytes kWellFormed4Bytes
      | _ => false

/-- `IsValid(bytes, length)`: every code point from the start on is well formed. -/
def isValid : List UInt8 → Bool
  | [] => true
  | first :: rest =>
    if !isWellFormedCodePoint (first :: rest) then false
    else isValid ((first :: rest).drop (codePointLengthByFirstByte first))
termination_by bytes => bytes.length
decreasing_by
  simp only [List.length_drop, List.length_cons]
  have : 0 < codePointLengthByFirstByte first := by
    unfold codePointLengthByFirstByte
    split_ifs <;> omega
  omega

/-- `IsUtf8(text)`. -/
def isUtf8 (text : List UInt8) : Bool := isValid text

/-- The text of the `std::runtime_error` that `GetCodePointsCount` throws. -/
def kNotUtf8 : String := "GetCodePointsCount: text is not in utf-8"

/-- `GetCodePointsCount(text)`: the number of code points, each checked on the way. -/
def getCodePointsCount : List UInt8 → Except String Nat
  | [] => .ok 0
  | first :: rest =>
    if !isWellFormedCodePoint (first :: rest) then .error kNotUtf8
    else (· + 1) <$> getCodePointsCount ((first :: rest).drop (codePointLengthByFirstByte first))
termination_by text => text.length
decreasing_by
  simp only [List.length_drop, List.length_cons]
  have : 0 < codePointLengthByFirstByte first := by
    unfold codePointLengthByFirstByte
    split_ifs <;> omega
  omega

/-- The loop of `FindTruncatedEndingCorrectSize` from `suffix_len` on, with `remaining` rounds
left before `max_suffix_len`. -/
def findTruncatedEndingLoop (str : List UInt8) (suffixLen : Nat) : (remaining : Nat) → Nat
  | 0 => str.length
  | remaining + 1 =>
    let pos := str.length - suffixLen
    let byte := str.getD pos 0
    -- first byte of a multibyte character
    if byte &&& 0xc0 = 0xc0 then
      let expectedLen := codePointLengthByFirstByte byte
      if expectedLen > suffixLen then str.length - suffixLen else str.length
    -- neither a first byte nor a continuation byte: not a truncated UTF-8 text
    else if byte &&& 0xc0 ≠ 0x80 then str.length
    else findTruncatedEndingLoop str (suffixLen + 1) remaining

/-- `FindTruncatedEndingCorrectSize(str)`. -/
def findTruncatedEndingCorrectSize (str : List UInt8) : Nat :=
  match str.getLast? with
  | none => str.length
  | some back =>
    -- ends with a one-byte character
    if back &&& 0x80 = 0 then str.length
    else findTruncatedEndingLoop str 1 (min str.length 3)

/-- `TrimTruncatedEnding(str)`. -/
def trimTruncatedEnding (str : List UInt8) : List UInt8 :=
  let correctSize := findTruncatedEndingCorrectSize str
  if correctSize < str.length then str.take correctSize else str

/-- The loop of `GetTextPosByCodePointPos`, from `text_pos` with `pos` code points to go. -/
def getTextPosLoop (text : List UInt8) (textPos : Nat) : (pos : Nat) → Nat
  | 0 => textPos
  | pos + 1 =>
    if textPos < text.length then
      getTextPosLoop text (textPos + codePointLengthByFirstByte (text.getD textPos 0)) pos
    else textPos

/-- `GetTextPosByCodePointPos(text, pos)`. -/
def getTextPosByCodePointPos (text : List UInt8) (pos : Nat) : Nat :=
  min (getTextPosLoop text 0 pos) text.length

/-- `RemovePrefix(text, count)`: `text.erase(0, GetTextPosByCodePointPos(text, count))`. -/
def removePrefix (text : List UInt8) (count : Nat) : List UInt8 :=
  text.drop (getTextPosByCodePointPos text count)

/-- `TakePrefix(text, count)`: `text.erase(GetTextPosByCodePointPos(text, count))`. -/
def takePrefix (text : List UInt8) (count : Nat) : List UInt8 :=
  text.take (getTextPosByCodePointPos text count)

/-! ## One code point -/

theorem codePointLengthByFirstByte_eq (c : UInt8) :
    codePointLengthByFirstByte c =
      if c.toNat < 0xC2 then 1 else if c.toNat < 0xE0 then 2 else if c.toNat < 0xF0 then 3 else 4 := by
  simp only [codePointLengthByFirstByte, kMinFirstByteValueFor2ByteCodePoint,
    kMinFirstByteValueFor3ByteCodePoint, kMinFirstByteValueFor4ByteCodePoint, UInt8.lt_iff_toNat_lt]
  rfl

/-- The table check of a code point whose first byte gives its length: that many bytes are there
and they form a row of Table 3-7. -/
theorem isWellFormedCodePoint_iff (first : UInt8) (rest : List UInt8) :
    isWellFormedCodePoint (first :: rest) = true ↔
      codePointLengthByFirstByte first ≤ rest.length + 1 ∧
        Row (((first :: rest).take (codePointLengthByFirstByte first)).map UInt8.toNat) := by
  rw [isWellFormedCodePoint, codePointLengthByFirstByte_eq]
  -- one case per length the first byte gives, and the bytes the rows read
  rcases rest with _ | ⟨b, _ | ⟨c, _ | ⟨d, rest⟩⟩⟩ <;>
    simp only [List.length_cons, List.length_nil] <;>
    split_ifs <;>
    simp_all [isValidBytes, kWellFormed1Bytes, kWellFormed2Bytes, kWellFormed3Bytes, kWellFormed4Bytes,
      Row, IsTail, UInt8.lt_iff_toNat_lt] <;>
    omega

/-- The first byte of a row gives the row's length. -/
theorem codePointLengthByFirstByte_of_row {first : UInt8} {rest : List UInt8}
    (h : Row ((first :: rest).map UInt8.toNat)) : codePointLengthByFirstByte first = rest.length + 1 := by
  rw [codePointLengthByFirstByte_eq]
  rcases rest with _ | ⟨b, _ | ⟨c, _ | ⟨d, _ | ⟨e, rest⟩⟩⟩⟩ <;>
    simp only [List.map_cons, List.map_nil, Row, IsTail] at h <;>
    split_ifs <;> simp <;> omega

/-- What the loops read of a character's encoding: a first byte that gives the encoding's length,
and bytes the table accepts whatever follows them. -/
theorem utf8EncodeChar_spec (c : Char) :
    ∃ first rest, String.utf8EncodeChar c = first :: rest ∧
      Row ((first :: rest).map UInt8.toNat) ∧ codePointLengthByFirstByte first = rest.length + 1 ∧
        ∀ tail, isWellFormedCodePoint (first :: (rest ++ tail)) = true := by
  obtain ⟨first, rest, henc⟩ := List.exists_cons_of_ne_nil (String.utf8EncodeChar_ne_nil (c := c))
  have hrow : Row ((first :: rest).map UInt8.toNat) := by
    rw [← henc, map_toNat_utf8EncodeChar]
    exact row_encodeNat c
  have hlen := codePointLengthByFirstByte_of_row hrow
  refine ⟨first, rest, henc, hrow, hlen, fun tail => ?_⟩
  have hl : (first :: rest).length = rest.length + 1 := rfl
  rw [isWellFormedCodePoint_iff, hlen, ← List.cons_append, List.take_left' hl]
  exact ⟨by simp, hrow⟩

/-- Bytes the table accepts begin with the encoding of a character. -/
theorem exists_utf8EncodeChar_of_isWellFormedCodePoint {first : UInt8} {rest : List UInt8}
    (h : isWellFormedCodePoint (first :: rest) = true) :
    ∃ c : Char, String.utf8EncodeChar c = (first :: rest).take (codePointLengthByFirstByte first) :=
  exists_utf8EncodeChar_of_row ((isWellFormedCodePoint_iff first rest).1 h).2

/-! ## Whole texts -/

/-- The bytes after a code point whose first byte gives its length. -/
theorem drop_codePoint {first : UInt8} {rest : List UInt8}
    (hlen : codePointLengthByFirstByte first = rest.length + 1) (tail : List UInt8) :
    (first :: (rest ++ tail)).drop (codePointLengthByFirstByte first) = tail := by
  have hl : (first :: rest).length = rest.length + 1 := rfl
  rw [hlen, ← List.cons_append, List.drop_left' hl]

theorem isValid_flatMap (cs : List Char) : isValid (cs.flatMap String.utf8EncodeChar) = true := by
  induction cs with
  | nil => simp [isValid]
  | cons c cs ih =>
    obtain ⟨first, rest, henc, -, hlen, hwf⟩ := utf8EncodeChar_spec c
    rw [List.flatMap_cons, henc, List.cons_append, isValid, hwf, drop_codePoint hlen]
    exact ih

/-- A valid text is split by its first bytes into the encodings of characters. -/
theorem exists_flatMap_of_isValid {bytes : List UInt8} (h : isValid bytes = true) :
    ∃ cs : List Char, bytes = cs.flatMap String.utf8EncodeChar := by
  fun_induction isValid bytes with
  | case1 => exact ⟨[], rfl⟩
  | case2 first rest hwf => simp at h
  | case3 first rest hwf ih =>
    obtain ⟨c, hc⟩ := exists_utf8EncodeChar_of_isWellFormedCodePoint (by simpa using hwf)
    obtain ⟨cs, hcs⟩ := ih h
    refine ⟨c :: cs, ?_⟩
    rw [List.flatMap_cons, hc, ← hcs, List.take_append_drop]

theorem getCodePointsCount_flatMap (cs : List Char) :
    getCodePointsCount (cs.flatMap String.utf8EncodeChar) = .ok cs.length := by
  induction cs with
  | nil => simp [getCodePointsCount]
  | cons c cs ih =>
    obtain ⟨first, rest, henc, -, hlen, hwf⟩ := utf8EncodeChar_spec c
    rw [List.flatMap_cons, henc, List.cons_append, getCodePointsCount, hwf,
      drop_codePoint hlen, ih]
    rfl

theorem getCodePointsCount_of_isValid_false {bytes : List UInt8} (h : isValid bytes = false) :
    getCodePointsCount bytes = .error kNotUtf8 := by
  fun_induction getCodePointsCount bytes with
  | case1 => simp [isValid] at h
  | case2 first rest hwf => rfl
  | case3 first rest hwf ih =>
    -- the first code point is well formed, so the rest of the text is the invalid part
    rw [isValid, if_neg hwf] at h
    rw [ih h]
    rfl

/-- `IsUtf8` accepts exactly the concatenations of encodings of characters; `GetCodePointsCount`
counts the characters of such a text, and throws on any other. -/
theorem isUtf8_iff_encodes (text : List UInt8) :
    (isUtf8 text = true ↔ ∃ cs : List Char, text = cs.flatMap String.utf8EncodeChar) ∧
      (∀ cs : List Char, text = cs.flatMap String.utf8EncodeChar →
        getCodePointsCount text = .ok cs.length) ∧
      (isUtf8 text = false → getCodePointsCount text = .error kNotUtf8) := by
  refine ⟨⟨exists_flatMap_of_isValid, ?_⟩, ?_, getCodePointsCount_of_isValid_false⟩
  · rintro ⟨cs, rfl⟩
    exact isValid_flatMap cs
  · rintro cs rfl
    exact getCodePointsCount_flatMap cs

/-! ## Stepping over code points -/

theorem flatMap_take_append_drop {α β : Type} (f : α → List β) (l : List α) (k : Nat) :
    (l.take k).flatMap f ++ (l.drop k).flatMap f = l.flatMap f := by
  rw [← List.flatMap_append, List.take_append_drop]

/-- `GetTextPosByCodePointPos`'s loop, started at a boundary of a valid text, steps over whole
encodings. -/
theorem getTextPosLoop_flatMap (pre : List UInt8) (cs : List Char) (k : Nat) :
    getTextPosLoop (pre ++ cs.flatMap String.utf8EncodeChar) pre.length k =
      pre.length + ((cs.take k).flatMap String.utf8EncodeChar).length := by
  induction k generalizing pre cs with
  | zero => simp [getTextPosLoop]
  | succ k ih =>
    cases cs with
    | nil => simp [getTextPosLoop]
    | cons c cs =>
      obtain ⟨first, rest, henc, -, hlen, -⟩ := utf8EncodeChar_spec c
      have htext : pre ++ (c :: cs).flatMap String.utf8EncodeChar =
          (pre ++ first :: rest) ++ cs.flatMap String.utf8EncodeChar := by
        simp [henc]
      have hpos : pre.length < (pre ++ (c :: cs).flatMap String.utf8EncodeChar).length := by
        simp [henc]
      -- the byte at the boundary is the first byte of the next encoding
      have hbyte : (pre ++ (c :: cs).flatMap String.utf8EncodeChar).getD pre.length 0 = first := by
        rw [List.getD_append_right _ _ _ _ le_rfl, Nat.sub_self, List.flatMap_cons, henc]
        rfl
      have hnext : pre.length + (rest.length + 1) = (pre ++ first :: rest).length := by simp
      rw [getTextPosLoop, if_pos hpos, hbyte, hlen, htext, hnext, ih, List.take_succ_cons,
        List.flatMap_cons, henc]
      simp only [List.length_append, List.length_cons]
      omega

theorem getTextPosByCodePointPos_flatMap (cs : List Char) (k : Nat) :
    getTextPosByCodePointPos (cs.flatMap String.utf8EncodeChar) k =
      ((cs.take k).flatMap String.utf8EncodeChar).length := by
  have hloop := getTextPosLoop_flatMap [] cs k
  simp only [List.nil_append, List.length_nil, Nat.zero_add] at hloop
  rw [getTextPosByCodePointPos, hloop, Nat.min_eq_left]
  rw [← flatMap_take_append_drop String.utf8EncodeChar cs k, List.length_append]
  omega

theorem takePrefix_flatMap (cs : List Char) (k : Nat) :
    takePrefix (cs.flatMap String.utf8EncodeChar) k = (cs.take k).flatMap String.utf8EncodeChar := by
  rw [takePrefix, getTextPosByCodePointPos_flatMap, ← flatMap_take_append_drop _ cs k,
    List.take_left' rfl]

theorem removePrefix_flatMap (cs : List Char) (k : Nat) :
    removePrefix (cs.flatMap String.utf8EncodeChar) k = (cs.drop k).flatMap String.utf8EncodeChar := by
  rw [removePrefix, getTextPosByCodePointPos_flatMap, ← flatMap_take_append_drop _ cs k,
    List.drop_left' rfl]

/-! ## Cutting off a truncated code point -/

/-- A prefix of a concatenation ends after some of its parts and a proper prefix of the next
one. -/
theorem exists_of_prefix_flatMap {α β : Type} (f : α → List β) :
    ∀ (l : List α) {p : List β}, p <+: l.flatMap f →
      ∃ j ≤ l.length, ∃ q, p = (l.take j).flatMap f ++ q ∧
        (q = [] ∨ ∃ x rest, l.drop j = x :: rest ∧ q <+: f x ∧ q ≠ [] ∧ q.length < (f x).length)
  | [], p, hp => ⟨0, le_rfl, [], by simpa using hp, .inl rfl⟩
  | x :: l, p, hp => by
    obtain ⟨t, ht⟩ := hp
    rw [List.flatMap_cons, List.append_eq_append_iff] at ht
    rcases ht with ⟨a, hx, -⟩ | ⟨c, hp, hl⟩
    · -- `p` ends inside the first part
      by_cases ha : a = []
      · subst ha
        exact ⟨1, by simp, [], by simpa using hx.symm, .inl rfl⟩
      · by_cases hp : p = []
        · exact ⟨0, by simp, [], by simp [hp], .inl rfl⟩
        · have hlen : p.length < (f x).length := by
            rw [hx, List.length_append]
            have := List.length_pos_of_ne_nil ha
            omega
          exact ⟨0, by simp, p, by simp, .inr ⟨x, l, rfl, ⟨a, hx.symm⟩, hp, hlen⟩⟩
    · -- `p` holds the whole first part
      obtain ⟨j, hj, q, hc, hq⟩ := exists_of_prefix_flatMap f l ⟨t, hl.symm⟩
      exact ⟨j + 1, by simp [hj], q, by simp [hp, hc], by simpa using hq⟩

/-- The bytes of an encoding after the first are continuation bytes. -/
theorem and_0xc0_of_mem_rest {c : Char} {first : UInt8} {rest : List UInt8}
    (henc : String.utf8EncodeChar c = first :: rest) : ∀ b ∈ rest, b &&& 0xc0 = 0x80 := by
  have hrow : Row ((first :: rest).map UInt8.toNat) := by
    rw [← henc, map_toNat_utf8EncodeChar]
    exact row_encodeNat c
  intro b hb
  have htail := isTail_of_row hrow b.toNat (List.mem_map_of_mem hb)
  rw [← UInt8.toNat_inj, UInt8.toNat_and]
  exact and_0xC0_of_isTail htail

/-- The first byte of an encoding of two or more bytes is a lead byte. -/
theorem and_0xc0_first {c : Char} {first b : UInt8} {rest : List UInt8}
    (henc : String.utf8EncodeChar c = first :: b :: rest) : first &&& 0xc0 = 0xc0 := by
  have hrow : Row ((first :: b :: rest).map UInt8.toNat) := by
    rw [← henc, map_toNat_utf8EncodeChar]
    exact row_encodeNat c
  have hlead := lead_of_row hrow
  rw [← UInt8.toNat_inj, UInt8.toNat_and]
  exact and_0xC0_of_lead (by omega) (by omega)

/-- The bytes the loop of `FindTruncatedEndingCorrectSize` reads, looking back `s` bytes over a lead
byte and the continuation bytes after it. -/
theorem getD_lead_conts (pre conts : List UInt8) (lead : UInt8) {s : Nat}
    (hs' : s ≤ conts.length + 1) :
    (pre ++ lead :: conts).getD ((pre ++ lead :: conts).length - s) 0 =
      if s = conts.length + 1 then lead else conts.getD (conts.length - s) 0 := by
  have hlen : (pre ++ lead :: conts).length = pre.length + (conts.length + 1) := by simp
  rw [hlen, List.getD_append_right _ _ _ _ (by omega)]
  split_ifs with h
  · rw [show pre.length + (conts.length + 1) - s - pre.length = 0 by omega]
    rfl
  · rw [show pre.length + (conts.length + 1) - s - pre.length = (conts.length - s) + 1 by omega]
    rfl

/-- The loop over continuation bytes back to a lead byte: it stops at the lead byte if it gets
that far, and keeps the whole text when its rounds run out first. -/
theorem findTruncatedEndingLoop_lead {pre conts : List UInt8} {lead : UInt8}
    (hlead : lead &&& 0xc0 = 0xc0) (hconts : ∀ b ∈ conts, b &&& 0xc0 = 0x80) :
    ∀ (fuel s : Nat), 1 ≤ s → s ≤ conts.length + 1 →
      findTruncatedEndingLoop (pre ++ lead :: conts) s fuel =
        if fuel + s ≤ conts.length + 1 then (pre ++ lead :: conts).length
        else if codePointLengthByFirstByte lead > conts.length + 1 then
          (pre ++ lead :: conts).length - (conts.length + 1)
        else (pre ++ lead :: conts).length := by
  intro fuel
  induction fuel with
  | zero =>
    intro s hs hs'
    rw [findTruncatedEndingLoop, if_pos (by omega)]
  | succ fuel ih =>
    intro s hs hs'
    rw [findTruncatedEndingLoop]
    dsimp only
    rw [getD_lead_conts pre conts lead hs']
    by_cases hlast : s = conts.length + 1
    · -- the lead byte: the loop decides
      rw [if_pos hlast, if_pos hlead, if_neg (show ¬(fuel + 1 + s ≤ conts.length + 1) by omega),
        hlast]
    · -- a continuation byte: one more round
      have hcont : conts.getD (conts.length - s) 0 &&& 0xc0 = 0x80 := by
        apply hconts
        rw [List.getD_eq_getElem _ _ (by omega)]
        exact List.getElem_mem _
      rw [if_neg hlast, hcont, if_neg (by decide), if_neg (by simp), ih (s + 1) (by omega) (by omega)]
      simp only [show fuel + (s + 1) = fuel + 1 + s by omega]

/-- A lead or continuation byte is not ASCII. -/
theorem and_0x80_ne_zero {b : UInt8} (h : b &&& 0xc0 = 0x80 ∨ b &&& 0xc0 = 0xc0) : b &&& 0x80 ≠ 0 := by
  have hmask : b &&& 0x80 = (b &&& 0xc0) &&& 0x80 := by rw [UInt8.and_assoc]; rfl
  rcases h with h | h <;> rw [hmask, h] <;> decide

/-- The last byte of a nonempty list after a first byte `a`: `a` itself or one of the others. -/
theorem getD_getLast?_mem {α : Type} (a : α) (l : List α) : l.getLast?.getD a = a ∨ l.getLast?.getD a ∈ l := by
  cases h : l.getLast? with
  | none => exact .inl rfl
  | some x => exact .inr (List.mem_of_getLast? h)

/-- A text that ends on a boundary keeps every byte. -/
theorem findTruncatedEndingCorrectSize_flatMap (cs : List Char) :
    findTruncatedEndingCorrectSize (cs.flatMap String.utf8EncodeChar) =
      (cs.flatMap String.utf8EncodeChar).length := by
  rcases List.eq_nil_or_concat cs with rfl | ⟨cs, c, rfl⟩
  · rfl
  obtain ⟨first, rest, henc, hrow, hlen, -⟩ := utf8EncodeChar_spec c
  have htext : (cs.concat c).flatMap String.utf8EncodeChar =
      cs.flatMap String.utf8EncodeChar ++ first :: rest := by
    simp [henc]
  rw [htext, findTruncatedEndingCorrectSize, List.getLast?_append_cons, List.getLast?_cons]
  dsimp only
  rcases rest with _ | ⟨b, rest⟩
  · -- the last character is one byte: ASCII
    have hascii : first &&& 0x80 = 0 := by
      rw [← UInt8.toNat_inj, UInt8.toNat_and]
      exact (and_0x80_eq_zero_iff (UInt8.toNat_lt first)).2 (lt_of_row_singleton hrow)
    simp [hascii]
  · -- the last character is two to four bytes: the loop looks back to its lead byte, or runs
    -- out of rounds after three continuation bytes
    have hlead := and_0xc0_first henc
    have hconts := and_0xc0_of_mem_rest henc
    have hlastb : (b :: rest).getLast?.getD first &&& 0x80 ≠ 0 := by
      apply and_0x80_ne_zero
      rcases getD_getLast?_mem first (b :: rest) with h | h
      · exact .inr (by rw [h]; exact hlead)
      · exact .inl (hconts _ h)
    rw [if_neg hlastb, findTruncatedEndingLoop_lead hlead hconts _ 1 le_rfl (by omega), hlen]
    simp

/-- A text cut inside the encoding of a character loses the bytes of that character. -/
theorem findTruncatedEndingCorrectSize_truncated (pre : List UInt8) {c : Char} {q : List UInt8}
    (hq : q <+: String.utf8EncodeChar c) (hne : q ≠ []) (hlt : q.length < (String.utf8EncodeChar c).length) :
    findTruncatedEndingCorrectSize (pre ++ q) = pre.length := by
  obtain ⟨first, rest, henc, -, hlen, -⟩ := utf8EncodeChar_spec c
  rw [henc] at hq hlt
  obtain ⟨qrest, rfl, hqrest⟩ : ∃ qrest, q = first :: qrest ∧ qrest <+: rest := by
    rcases List.prefix_cons_iff.1 hq with h | h
    · exact absurd h hne
    · exact h
  have hshort : qrest.length < rest.length := by simpa using hlt
  obtain ⟨b, rest', rfl⟩ :=
    List.exists_cons_of_ne_nil (show rest ≠ [] from List.ne_nil_of_length_pos (by omega))
  have hlead := and_0xc0_first henc
  have hconts : ∀ x ∈ qrest, x &&& 0xc0 = 0x80 :=
    fun x hx => and_0xc0_of_mem_rest henc x (hqrest.subset hx)
  have hlastb : qrest.getLast?.getD first &&& 0x80 ≠ 0 := by
    apply and_0x80_ne_zero
    rcases getD_getLast?_mem first qrest with h | h
    · exact .inr (by rw [h]; exact hlead)
    · exact .inl (hconts _ h)
  -- at most three bytes are cut off, and the loop reaches the lead byte
  have hfour : (String.utf8EncodeChar c).length ≤ 4 := by
    rw [String.length_utf8EncodeChar]
    exact Char.utf8Size_le_four c
  rw [henc] at hfour
  simp only [List.length_cons] at hfour hshort
  rw [findTruncatedEndingCorrectSize, List.getLast?_append_cons, List.getLast?_cons]
  dsimp only
  rw [if_neg hlastb, findTruncatedEndingLoop_lead hlead hconts _ 1 le_rfl (by omega),
    if_neg (by simp; omega), if_pos (by rw [hlen]; simp; omega)]
  simp

/-- Keeping the first `i` characters of a list keeps a prefix of the encoding of the first `j`,
for `i ≤ j`. -/
theorem flatMap_take_isPrefix_of_le {α β : Type} (f : α → List β) (l : List α) {i j : Nat} (h : i ≤ j) :
    (l.take i).flatMap f <+: (l.take j).flatMap f := by
  have htake : l.take i = (l.take j).take i := by rw [List.take_take, Nat.min_eq_left h]
  rw [htake, ← flatMap_take_append_drop f (l.take j) i]
  exact List.prefix_append _ _

theorem take_succ_of_drop {α : Type} {l : List α} {j : Nat} {x : α} {rest : List α}
    (h : l.drop j = x :: rest) : l.take (j + 1) = l.take j ++ [x] := by
  have hget : l[j]? = some x := by rw [← List.head?_drop, h]; rfl
  rw [List.take_add_one, hget]
  rfl

/-- `TrimTruncatedEnding` of a byte prefix of a valid text: the encoding of the characters that
end in it, and no longer prefix of it ends on a boundary. -/
theorem trimTruncatedEnding_prefix (cs : List Char) {p : List UInt8}
    (hp : p <+: cs.flatMap String.utf8EncodeChar) :
    ∃ j ≤ cs.length, trimTruncatedEnding p = (cs.take j).flatMap String.utf8EncodeChar ∧
      (cs.take j).flatMap String.utf8EncodeChar <+: p ∧
      ∀ j' ≤ cs.length, (cs.take j').flatMap String.utf8EncodeChar <+: p → j' ≤ j := by
  obtain ⟨j, hj, q, rfl, hq⟩ := exists_of_prefix_flatMap String.utf8EncodeChar cs hp
  refine ⟨j, hj, ?_, List.prefix_append _ _, fun j' hj' hpre => ?_⟩
  · rcases hq with rfl | ⟨x, rest, -, hqx, hne, hlt⟩
    · -- the prefix ends on a boundary: nothing is cut
      rw [List.append_nil, trimTruncatedEnding, findTruncatedEndingCorrectSize_flatMap,
        if_neg (lt_irrefl _)]
    · -- the prefix ends inside a character: its bytes are cut
      have hpos := List.length_pos_of_ne_nil hne
      rw [trimTruncatedEnding, findTruncatedEndingCorrectSize_truncated _ hqx hne hlt,
        if_pos (by simp only [List.length_append]; omega), List.take_left' rfl]
  · -- a boundary further on would hold the whole next character
    by_contra hlt
    obtain ⟨x, rest, hdrop⟩ : ∃ x rest, cs.drop j = x :: rest :=
      List.exists_cons_of_ne_nil (by simp only [ne_eq, List.drop_eq_nil_iff]; omega)
    have hnext := (flatMap_take_isPrefix_of_le String.utf8EncodeChar cs (show j + 1 ≤ j' by omega)).trans hpre
    rw [take_succ_of_drop hdrop, List.flatMap_append, List.prefix_append_right_inj] at hnext
    have hlen := hnext.length_le
    simp only [List.flatMap_cons, List.flatMap_nil, List.append_nil] at hlen
    rcases hq with rfl | ⟨x', rest', hdrop', -, -, hlt'⟩
    · have := List.length_pos_of_ne_nil (String.utf8EncodeChar_ne_nil (c := x))
      simp only [List.length_nil] at hlen
      omega
    · rw [hdrop] at hdrop'
      obtain ⟨rfl, -⟩ := List.cons.inj hdrop'
      omega

/-- Cutting a valid text: `TrimTruncatedEnding` of a byte prefix keeps the encoding of the
characters that end in it, the longest prefix ending on a boundary, which is valid; `TakePrefix`,
`RemovePrefix` and `GetTextPosByCodePointPos` at `k` cut at the boundary after `k` characters. -/
theorem utf8_prefix_cuts (cs : List Char) (p : List UInt8) (k : Nat)
    (hp : p <+: cs.flatMap String.utf8EncodeChar) :
    (∃ j ≤ cs.length, trimTruncatedEnding p = (cs.take j).flatMap String.utf8EncodeChar ∧
        (cs.take j).flatMap String.utf8EncodeChar <+: p ∧
        ∀ j' ≤ cs.length, (cs.take j').flatMap String.utf8EncodeChar <+: p → j' ≤ j) ∧
      isUtf8 (trimTruncatedEnding p) = true ∧
      takePrefix (cs.flatMap String.utf8EncodeChar) k = (cs.take k).flatMap String.utf8EncodeChar ∧
      removePrefix (cs.flatMap String.utf8EncodeChar) k = (cs.drop k).flatMap String.utf8EncodeChar ∧
      getTextPosByCodePointPos (cs.flatMap String.utf8EncodeChar) k =
        ((cs.take k).flatMap String.utf8EncodeChar).length := by
  have htrim := trimTruncatedEnding_prefix cs hp
  refine ⟨htrim, ?_, takePrefix_flatMap cs k, removePrefix_flatMap cs k,
    getTextPosByCodePointPos_flatMap cs k⟩
  obtain ⟨j, -, hj, -⟩ := htrim
  rw [hj]
  exact isValid_flatMap _

/-- "aé" cut after the first byte of "é": the cut byte goes, and one character is taken. -/
theorem utf8_prefix_cuts_a_e_acute :
    [0x61, 0xC3] <+: ['a', 'é'].flatMap String.utf8EncodeChar ∧
      ((∃ j ≤ 2, trimTruncatedEnding [0x61, 0xC3] = (['a', 'é'].take j).flatMap String.utf8EncodeChar ∧
        (['a', 'é'].take j).flatMap String.utf8EncodeChar <+: [0x61, 0xC3] ∧
        ∀ j' ≤ 2, (['a', 'é'].take j').flatMap String.utf8EncodeChar <+: [0x61, 0xC3] → j' ≤ j) ∧
      isUtf8 (trimTruncatedEnding [0x61, 0xC3]) = true ∧
      takePrefix (['a', 'é'].flatMap String.utf8EncodeChar) 1 = (['a', 'é'].take 1).flatMap String.utf8EncodeChar ∧
      removePrefix (['a', 'é'].flatMap String.utf8EncodeChar) 1 =
        (['a', 'é'].drop 1).flatMap String.utf8EncodeChar ∧
      getTextPosByCodePointPos (['a', 'é'].flatMap String.utf8EncodeChar) 1 =
        ((['a', 'é'].take 1).flatMap String.utf8EncodeChar).length) :=
  ⟨by decide, utf8_prefix_cuts ['a', 'é'] [0x61, 0xC3] 1 (by decide)⟩

end Text

end Utils

end Userver
