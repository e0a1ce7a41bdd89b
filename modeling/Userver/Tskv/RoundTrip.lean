import Userver.Lib.Codec
import Userver.Tskv.Encode
import Userver.Tskv.Parser

/-!
# Reading back encoded TSKV records

A text of records, each written as `kTskv`, its pairs joined with tabs (a pair is its key and
its value encoded around `=`) and a newline, reads back record by record through
`SkipToRecordBegin` and `TskvReadRecord`: every key comes back lower-cased, every value as it
was.  A text cut anywhere reads back the records before the cut, and then reports the record that
was cut as incomplete.

The argument is made once for the loops of `ReadKey` and `ReadValue` (`EscapeReader`): each byte
is encoded as one byte the loop copies or as an escape it resolves (`ReadsAs`), and the loop's
result after the encoding of a string is its result after the decoded string.
-/

namespace Userver

namespace Tskv

/-- ASCII lower-casing: `'A'`..`'Z'` to `'a'`..`'z'`, every other byte unchanged. -/
def asciiLower (c : UInt8) : UInt8 :=
  if 'A'.toUInt8 ≤ c ∧ c ≤ 'Z'.toUInt8 then c + ('a'.toUInt8 - 'A'.toUInt8) else c

/-! ## One byte -/

/-- `bytes` are read back as `c` by a loop that stops at `separators`: one byte that it copies,
or a backslash and a byte that `GetUnescapedChar` turns into `c`. -/
def ReadsAs (separators : List UInt8) (c : UInt8) : List UInt8 → Prop
  | [b] => b = c ∧ b ∉ separators
  | [b, e] => b = '\\'.toUInt8 ∧ getUnescapedChar e = some c
  | _ => False

instance (separators : List UInt8) (c : UInt8) :
    (bytes : List UInt8) → Decidable (ReadsAs separators c bytes)
  | [] => isFalse fun h => h
  | [b] => inferInstanceAs (Decidable (b = c ∧ b ∉ separators))
  | [b, e] => inferInstanceAs (Decidable (b = '\\'.toUInt8 ∧ getUnescapedChar e = some c))
  | _ :: _ :: _ :: _ => isFalse fun h => h

set_option maxRecDepth 8000 in
/-- Each byte of a key is written as a byte or an escape that `ReadKey` reads back lower-cased. -/
theorem encodeTskv_key_readsAs :
    ∀ c : UInt8, ReadsAs keySeparators (asciiLower c) (encodeTskv c .kKey) := by
  decide

set_option maxRecDepth 8000 in
/-- Each byte of a value is written as a byte or an escape that `ReadValue` reads back. -/
theorem encodeTskv_value_readsAs :
    ∀ c : UInt8, ReadsAs valueSeparators c (encodeTskv c .kValue) := by
  decide

/-- Bytes read back by a loop that stops at newlines do not start with one. -/
theorem ReadsAs.head_ne_newline {separators : List UInt8} {c : UInt8} {bytes : List UInt8}
    (h : ReadsAs separators c bytes) (hnewline : '\n'.toUInt8 ∈ separators) :
    bytes.head? ≠ some '\n'.toUInt8 := by
  match bytes, h with
  | [b], ⟨_, hb⟩ =>
    rintro ⟨⟩
    exact hb hnewline
  | [b, e], ⟨hb, _⟩ =>
    rw [hb, List.head?_cons]
    decide

theorem ReadsAs.ne_nil {separators : List UInt8} {c : UInt8} {bytes : List UInt8}
    (h : ReadsAs separators c bytes) : bytes ≠ [] := by
  rintro rfl
  exact h

/-! ## The loops of `ReadKey` and `ReadValue` -/

/-- What reading back encoded bytes needs of a read loop (`ReadKey`'s or `ReadValue`'s), of the
bytes it stops at, and of the input `allowed` after a byte it copies: `ReadKey` takes a newline
right at the start of a chunk for the end of an empty record. -/
structure EscapeReader (loop : List UInt8 → List UInt8 → ReadResult) (separators : List UInt8)
    (allowed : List UInt8 → Prop) : Prop where
  nil : ∀ result, (loop result []).1 = some .kIncomplete
  backslash : ∀ result, (loop result ['\\'.toUInt8]).1 = some .kIncomplete
  escape : ∀ {secondChar unescaped : UInt8}, getUnescapedChar secondChar = some unescaped →
    ∀ result in_, loop result ('\\'.toUInt8 :: secondChar :: in_) = loop (result ++ [unescaped]) in_
  cons : ∀ {b : UInt8}, b ∉ separators → ∀ {in_ : List UInt8}, allowed in_ →
    ∀ result, SameOutcome (loop result (b :: in_)) (loop (result ++ [b]) in_)
  allowed_nil : allowed []
  allowed_append : ∀ {c : UInt8} {bytes : List UInt8}, ReadsAs separators c bytes →
    ∀ in_, allowed (bytes ++ in_)
  allowed_take : ∀ {c : UInt8} {bytes : List UInt8}, ReadsAs separators c bytes →
    ∀ m, allowed (bytes.take m)

theorem readKeyLoop_escapeReader :
    EscapeReader readKeyLoop keySeparators fun in_ => in_.head? ≠ some '\n'.toUInt8 where
  nil result := by rw [readKeyLoop_nil]
  backslash result := by rw [readKeyLoop_backslash]
  escape h := readKeyLoop_escape h
  cons hb _ hin result := readKeyLoop_cons hb hin result
  allowed_nil := by simp
  allowed_append h in_ := by
    rw [List.head?_append_of_ne_nil _ h.ne_nil]
    exact h.head_ne_newline (by decide)
  allowed_take h m := by
    rw [List.head?_take]
    split
    · simp
    · exact h.head_ne_newline (by decide)

theorem readValueLoop_escapeReader : EscapeReader readValueLoop valueSeparators fun _ => True where
  nil result := by rw [readValueLoop_nil]
  backslash result := by rw [readValueLoop_backslash]
  escape h := readValueLoop_escape h
  cons hb in_ _ result := readValueLoop_cons hb in_ result
  allowed_nil := trivial
  allowed_append _ _ := trivial
  allowed_take _ _ := trivial

namespace EscapeReader

variable {loop : List UInt8 → List UInt8 → ReadResult} {separators : List UInt8}
  {allowed : List UInt8 → Prop} {enc : UInt8 → List UInt8} {dec : UInt8 → UInt8}

theorem append_readsAs (hr : EscapeReader loop separators allowed) {c : UInt8}
    {bytes : List UInt8} (h : ReadsAs separators c bytes) {in_ : List UInt8} (hin : allowed in_)
    (result : List UInt8) :
    SameOutcome (loop result (bytes ++ in_)) (loop (result ++ [c]) in_) := by
  match bytes, h with
  | [b], ⟨hb, hsep⟩ =>
    subst hb
    exact hr.cons hsep hin result
  | [b, e], ⟨hb, he⟩ =>
    subst hb
    rw [List.cons_append, List.cons_append, List.nil_append, hr.escape he]
    exact .refl _

theorem allowed_flatMap (hr : EscapeReader loop separators allowed)
    (henc : ∀ c, ReadsAs separators (dec c) (enc c)) (str : List UInt8) {in_ : List UInt8}
    (hin : allowed in_) : allowed (str.flatMap enc ++ in_) := by
  cases str with
  | nil => simpa using hin
  | cons c str =>
    rw [List.flatMap_cons, List.append_assoc]
    exact hr.allowed_append (henc c) _

/-- The loop reads the encoding of a string as the decoded string. -/
theorem flatMap (hr : EscapeReader loop separators allowed)
    (henc : ∀ c, ReadsAs separators (dec c) (enc c)) :
    ∀ (str in_ : List UInt8), allowed in_ → ∀ result,
      SameOutcome (loop result (str.flatMap enc ++ in_)) (loop (result ++ str.map dec) in_)
  | [], in_, _, result => by
    rw [List.flatMap_nil, List.nil_append, List.map_nil, List.append_nil]
    exact .refl _
  | c :: str, in_, hin, result => by
    have hfirst := hr.append_readsAs (henc c) (hr.allowed_flatMap henc str hin) result
    have hrest := hr.flatMap henc str in_ hin (result ++ [dec c])
    rw [List.flatMap_cons, List.append_assoc, List.map_cons]
    rw [List.append_assoc, List.singleton_append] at hrest
    exact hfirst.trans hrest

/-- A proper prefix of the bytes of one byte stops the loop as incomplete. -/
theorem take_readsAs (hr : EscapeReader loop separators allowed) {c : UInt8}
    {bytes : List UInt8} (h : ReadsAs separators c bytes) {m : Nat} (hm : m < bytes.length)
    (result : List UInt8) :
    (loop result (bytes.take m)).1 = some .kIncomplete := by
  match bytes, h with
  | [b], _ =>
    obtain rfl : m = 0 := by simpa using hm
    exact hr.nil result
  | [b, e], ⟨hb, _⟩ =>
    subst hb
    have hm2 : m = 0 ∨ m = 1 := by simp at hm; omega
    rcases hm2 with rfl | rfl
    · exact hr.nil result
    · exact hr.backslash result

/-- A prefix of the encoding of a string stops the loop as incomplete. -/
theorem take_flatMap (hr : EscapeReader loop separators allowed)
    (henc : ∀ c, ReadsAs separators (dec c) (enc c)) (str : List UInt8) {m : Nat}
    (hm : m ≤ (str.flatMap enc).length) (result : List UInt8) :
    (loop result ((str.flatMap enc).take m)).1 = some .kIncomplete := by
  rcases Nat.lt_or_eq_of_le hm with hlt | rfl
  · -- the cut is inside the encoding of some byte
    obtain ⟨k, hk, m', hm', htake⟩ := Codec.take_flatMap_of_lt enc str m hlt
    rw [htake]
    exact (hr.flatMap henc (str.take k) _ (hr.allowed_take (henc str[k]) m') result).incomplete
      (hr.take_readsAs (henc str[k]) hm' _)
  · rw [List.take_length, ← List.append_nil (str.flatMap enc)]
    exact (hr.flatMap henc str [] hr.allowed_nil result).incomplete (hr.nil _)

end EscapeReader

/-! ## Keys and values -/

theorem readKey_encodeTskvString (key rest : List UInt8) :
    readKey (encodeTskvString key .kKey ++ '='.toUInt8 :: rest) =
      (none, key.map asciiLower, rest) := by
  have h := readKeyLoop_escapeReader.flatMap encodeTskv_key_readsAs key ('='.toUInt8 :: rest)
    (by simp +decide) []
  rw [List.nil_append, readKeyLoop_equals] at h
  exact h.eq_of_ne (by simp)

theorem readKey_take_encodeTskvString (key : List UInt8) {m : Nat}
    (hm : m ≤ (encodeTskvString key .kKey).length) :
    (readKey ((encodeTskvString key .kKey).take m)).1 = some .kIncomplete :=
  readKeyLoop_escapeReader.take_flatMap encodeTskv_key_readsAs key hm []

/-- A value read up to the separator after it. -/
theorem readValue_encodeTskvString (value : List UInt8) {separator : UInt8}
    (hseparator : separator = '\t'.toUInt8 ∨ separator = '\n'.toUInt8) (rest : List UInt8) :
    readValue (encodeTskvString value .kValue ++ separator :: rest) =
      (if separator = '\n'.toUInt8 then some .kReachedEnd else none, value, rest) := by
  have h := readValueLoop_escapeReader.flatMap encodeTskv_value_readsAs value (separator :: rest)
    trivial []
  rw [List.nil_append, List.map_id'] at h
  rcases hseparator with rfl | rfl
  · rw [readValueLoop_tab] at h
    exact h.eq_of_ne (by simp)
  · rw [readValueLoop_newline] at h
    exact h.eq_of_ne (by simp)

theorem readValue_take_encodeTskvString (value : List UInt8) {m : Nat}
    (hm : m ≤ (encodeTskvString value .kValue).length) :
    (readValue ((encodeTskvString value .kValue).take m)).1 = some .kIncomplete :=
  readValueLoop_escapeReader.take_flatMap encodeTskv_value_readsAs value hm []

/-! ## Records -/

/-- The text of a pair: its key and its value encoded around `=`. -/
def encodePair (tag : Tag) : List UInt8 :=
  encodeTskvString tag.1 .kKey ++ '='.toUInt8 :: encodeTskvString tag.2 .kValue

/-- The text of a record: `kTskv`, its pairs joined with tabs, and a newline. -/
def encodeRecord (tags : List Tag) : List UInt8 :=
  kTskv ++ ['\t'.toUInt8].intercalate (tags.map encodePair) ++ ['\n'.toUInt8]

/-- The text of records one after another. -/
def encodeRecords (records : List (List Tag)) : List UInt8 :=
  records.flatMap encodeRecord

/-- A record as it is read back: its keys lower-cased. -/
def lowerKeys (tags : List Tag) : List Tag :=
  tags.map fun tag => (tag.1.map asciiLower, tag.2)

/-- The text of a record after `kTskv`. -/
def recordBody (tags : List Tag) : List UInt8 :=
  ['\t'.toUInt8].intercalate (tags.map encodePair) ++ ['\n'.toUInt8]

theorem encodeRecord_eq (tags : List Tag) : encodeRecord tags = kTskv ++ recordBody tags := by
  rw [encodeRecord, recordBody, List.append_assoc]

theorem recordBody_nil : recordBody [] = ['\n'.toUInt8] := rfl

theorem recordBody_singleton (tag : Tag) :
    recordBody [tag] = encodePair tag ++ ['\n'.toUInt8] := by
  simp [recordBody]

theorem recordBody_cons_cons (tag tag' : Tag) (tags : List Tag) :
    recordBody (tag :: tag' :: tags) = encodePair tag ++ '\t'.toUInt8 :: recordBody (tag' :: tags) := by
  simp [recordBody, List.intercalate_cons_cons]

theorem encodePair_append (tag : Tag) (rest : List UInt8) :
    encodePair tag ++ rest =
      encodeTskvString tag.1 .kKey ++ '='.toUInt8 :: (encodeTskvString tag.2 .kValue ++ rest) := by
  simp [encodePair]

/-- A newline where a key starts ends the record: a record without pairs. -/
theorem tskvReadRecordStep_newline (consumer : List UInt8 → List UInt8 → Bool)
    (consumed : List Tag) (rest : List UInt8) :
    tskvReadRecordStep consumer (consumed, '\n'.toUInt8 :: rest) =
      .inl (.kReachedEnd, consumed, rest) := by
  have hk : readKey ('\n'.toUInt8 :: rest) = (some .kReachedEnd, [], rest) := readKeyLoop_newline [] rest
  rw [tskvReadRecordStep_of_key_status (by rw [hk]) consumed, hk]

/-- A pair followed by a tab is handed to the consumer, and the record goes on. -/
theorem tskvReadRecordStep_pair_tab (tag : Tag) (rest : List UInt8) (consumed : List Tag) :
    tskvReadRecordStep (fun _ _ => true) (consumed, encodePair tag ++ '\t'.toUInt8 :: rest) =
      .inr (consumed ++ lowerKeys [tag], rest) := by
  have hv : readValue (encodeTskvString tag.2 .kValue ++ '\t'.toUInt8 :: rest) = (none, tag.2, rest) := by
    rw [readValue_encodeTskvString tag.2 (.inl rfl) rest, if_neg (by decide)]
  rw [encodePair_append, tskvReadRecordStep_of_value_tab (readKey_encodeTskvString _ _) hv rfl]
  rfl

/-- A pair followed by a newline is handed to the consumer, and ends the record. -/
theorem tskvReadRecordStep_pair_newline (consumer : List UInt8 → List UInt8 → Bool) (tag : Tag)
    (rest : List UInt8) (consumed : List Tag) :
    tskvReadRecordStep consumer (consumed, encodePair tag ++ '\n'.toUInt8 :: rest) =
      .inl (.kReachedEnd, consumed ++ lowerKeys [tag], rest) := by
  have hv : readValue (encodeTskvString tag.2 .kValue ++ '\n'.toUInt8 :: rest) =
      (some .kReachedEnd, tag.2, rest) := by
    rw [readValue_encodeTskvString tag.2 (.inr rfl) rest, if_pos rfl]
  rw [encodePair_append, tskvReadRecordStep_of_value_end (readKey_encodeTskvString _ _) hv]
  rfl

/-- A record reads back whole, with its keys lower-cased, whatever follows it. -/
theorem tskvReadRecordLoop_recordBody :
    ∀ (tags consumed : List Tag) (rest : List UInt8),
      tskvReadRecordLoop (fun _ _ => true) consumed (recordBody tags ++ rest) =
        (.kReachedEnd, consumed ++ lowerKeys tags, rest)
  | [], consumed, rest => by
    rw [recordBody_nil, List.singleton_append,
      tskvReadRecordLoop_of_inl (tskvReadRecordStep_newline _ consumed rest)]
    simp [lowerKeys]
  | [tag], consumed, rest => by
    rw [recordBody_singleton, List.append_assoc, List.singleton_append,
      tskvReadRecordLoop_of_inl (tskvReadRecordStep_pair_newline _ tag rest consumed)]
  | tag :: tag' :: tags, consumed, rest => by
    rw [recordBody_cons_cons, List.append_assoc, List.cons_append,
      tskvReadRecordLoop_of_inr (tskvReadRecordStep_pair_tab tag _ consumed),
      tskvReadRecordLoop_recordBody (tag' :: tags)]
    simp [lowerKeys]

/-- A pair cut anywhere up to its end stops the record as incomplete. -/
theorem tskvReadRecordLoop_take_encodePair (consumer : List UInt8 → List UInt8 → Bool) (tag : Tag)
    {m : Nat} (hm : m ≤ (encodePair tag).length) (consumed : List Tag) :
    (tskvReadRecordLoop consumer consumed ((encodePair tag).take m)).1 = .kIncomplete := by
  unfold encodePair at hm ⊢
  rw [List.take_append]
  by_cases hkey : m ≤ (encodeTskvString tag.1 .kKey).length
  · -- the cut is in the key
    rw [Nat.sub_eq_zero_of_le hkey, List.take_zero, List.append_nil,
      tskvReadRecordLoop_of_inl
        (tskvReadRecordStep_of_key_status (readKey_take_encodeTskvString tag.1 hkey) consumed)]
  · -- the cut is after the `=`, in the value
    obtain ⟨j, rfl⟩ : ∃ j, m = (encodeTskvString tag.1 .kKey).length + (j + 1) :=
      ⟨m - (encodeTskvString tag.1 .kKey).length - 1, by omega⟩
    have hj : j ≤ (encodeTskvString tag.2 .kValue).length := by
      simp only [List.length_append, List.length_cons] at hm
      omega
    rw [List.take_of_length_le (by omega), Nat.add_sub_cancel_left, List.take_succ_cons,
      tskvReadRecordLoop_of_inl (tskvReadRecordStep_of_value_incomplete
        (readKey_encodeTskvString _ _) (readValue_take_encodeTskvString tag.2 hj) consumed)]

/-- A record cut anywhere before its final newline reads as incomplete. -/
theorem tskvReadRecordLoop_take_recordBody :
    ∀ (tags : List Tag) {m : Nat}, m < (recordBody tags).length → ∀ consumed,
      (tskvReadRecordLoop (fun _ _ => true) consumed ((recordBody tags).take m)).1 = .kIncomplete
  | [], m, hm, consumed => by
    obtain rfl : m = 0 := by simpa [recordBody_nil] using hm
    have hk : (readKey []).1 = some .kIncomplete := by rw [readKey_eq, readKeyLoop_nil]
    rw [List.take_zero, tskvReadRecordLoop_of_inl (tskvReadRecordStep_of_key_status hk consumed)]
  | [tag], m, hm, consumed => by
    rw [recordBody_singleton] at hm ⊢
    have hpair : m ≤ (encodePair tag).length := by
      simp only [List.length_append, List.length_singleton] at hm
      omega
    rw [List.take_append_of_le_length hpair]
    exact tskvReadRecordLoop_take_encodePair _ tag hpair consumed
  | tag :: tag' :: tags, m, hm, consumed => by
    rw [recordBody_cons_cons] at hm ⊢
    by_cases hpair : m ≤ (encodePair tag).length
    · -- the cut is in the first pair
      rw [List.take_append_of_le_length hpair]
      exact tskvReadRecordLoop_take_encodePair _ tag hpair consumed
    · -- the first pair is read whole, and the cut is in the rest of the record
      obtain ⟨j, rfl⟩ : ∃ j, m = (encodePair tag).length + (j + 1) :=
        ⟨m - (encodePair tag).length - 1, by omega⟩
      have hj : j < (recordBody (tag' :: tags)).length := by
        simp only [List.length_append, List.length_cons] at hm
        omega
      rw [List.take_append, List.take_of_length_le (by omega), Nat.add_sub_cancel_left,
        List.take_succ_cons, tskvReadRecordLoop_of_inr (tskvReadRecordStep_pair_tab tag _ consumed)]
      exact tskvReadRecordLoop_take_recordBody (tag' :: tags) hj _

/-! ## The reading loop -/

/-- A record read from its text, whatever follows it. -/
theorem parseTskvStep_encodeRecord (tags : List Tag) (rest : List UInt8)
    (result : List SingleParsedRecord) :
    parseTskvStep (result, encodeRecord tags ++ rest) =
      .inr (result ++ [.record (lowerKeys tags)], rest) := by
  rw [encodeRecord_eq, List.append_assoc]
  refine parseTskvStep_of_record (skipToRecordBegin_kTskv_append _) ?_ result
  rw [tskvReadRecord, tskvReadRecordLoop_recordBody, List.nil_append]

/-- A record cut before its end has no record begin, or reads as incomplete from its begin. -/
theorem take_encodeRecord_status (tags : List Tag) {m : Nat} (hm : m < (encodeRecord tags).length) :
    (skipToRecordBegin ((encodeRecord tags).take m)).1 = none ∨
      ∃ in_, skipToRecordBegin ((encodeRecord tags).take m) = (some ((encodeRecord tags).take m), in_) ∧
        (tskvReadRecord (fun _ _ => true) in_).1 = .kIncomplete := by
  rw [encodeRecord_eq] at hm ⊢
  by_cases hbegin : m < kTskv.length
  · -- the cut is in `kTskv`
    left
    rw [List.take_append_of_le_length (le_of_lt hbegin), skipToRecordBegin_take_kTskv m hbegin]
  · right
    obtain ⟨j, rfl⟩ : ∃ j, m = kTskv.length + j := ⟨m - kTskv.length, by omega⟩
    have hj : j < (recordBody tags).length := by
      simp only [List.length_append] at hm
      omega
    rw [List.take_append, List.take_of_length_le (by omega), Nat.add_sub_cancel_left]
    exact ⟨_, skipToRecordBegin_kTskv_append _, tskvReadRecordLoop_take_recordBody tags hj []⟩

theorem parseTskvStep_take_encodeRecord (tags : List Tag) {m : Nat}
    (hm : m < (encodeRecord tags).length) (result : List SingleParsedRecord) :
    parseTskvStep (result, (encodeRecord tags).take m) =
      .inl (result ++ accountIncomplete ((encodeRecord tags).take m)) := by
  rcases take_encodeRecord_status tags hm with hnone | ⟨in_, hs, hr⟩
  · exact parseTskvStep_of_no_record_begin hnone result
  · exact parseTskvStep_of_incomplete hs hr result

theorem parseTskvStep_nil (result : List SingleParsedRecord) :
    parseTskvStep (result, []) = .inl (result ++ accountIncomplete []) :=
  parseTskvStep_of_no_record_begin rfl result

/-- The reading loop returns the records of a text one by one, and then what the rest of the text
makes it return. -/
theorem parseTskvLoop_encodeRecords (records : List (List Tag)) (tail : List UInt8)
    (htail : ∀ result, parseTskvStep (result, tail) = .inl (result ++ accountIncomplete tail))
    (result : List SingleParsedRecord) :
    parseTskvLoop result (encodeRecords records ++ tail) =
      result ++ records.map (fun tags => .record (lowerKeys tags)) ++ accountIncomplete tail := by
  induction records generalizing result with
  | nil =>
    rw [encodeRecords, List.flatMap_nil, List.nil_append, parseTskvLoop_of_inl (htail result),
      List.map_nil, List.append_nil]
  | cons tags records ih =>
    rw [encodeRecords, List.flatMap_cons, List.append_assoc,
      parseTskvLoop_of_inr (parseTskvStep_encodeRecord tags _ result)]
    rw [← encodeRecords, ih]
    simp

theorem parseTskv_encodeRecords (records : List (List Tag)) :
    parseTskv (encodeRecords records) = records.map (fun tags => .record (lowerKeys tags)) ∧
      ∀ n < (encodeRecords records).length,
        ∃ k, ∃ hk : k < records.length, ∃ m < (encodeRecord records[k]).length,
          (encodeRecords records).take n =
              encodeRecords (records.take k) ++ (encodeRecord records[k]).take m ∧
            parseTskv ((encodeRecords records).take n) =
              (records.take k).map (fun tags => .record (lowerKeys tags)) ++
                accountIncomplete ((encodeRecord records[k]).take m) ∧
            ((skipToRecordBegin ((encodeRecord records[k]).take m)).1 = none ∨
              (tskvReadRecord (fun _ _ => true)
                (skipToRecordBegin ((encodeRecord records[k]).take m)).2).1 = .kIncomplete) := by
  refine ⟨?_, fun n hn => ?_⟩
  · -- the whole text
    have h := parseTskvLoop_encodeRecords records [] parseTskvStep_nil []
    rw [List.append_nil] at h
    rw [parseTskv, h]
    simp [accountIncomplete]
  · -- a text cut inside record `k`
    obtain ⟨k, hk, m, hm, htake⟩ := Codec.take_flatMap_of_lt encodeRecord records n hn
    change (encodeRecords records).take n =
      encodeRecords (records.take k) ++ (encodeRecord records[k]).take m at htake
    refine ⟨k, hk, m, hm, htake, ?_, ?_⟩
    · rw [htake, parseTskv,
        parseTskvLoop_encodeRecords _ _ (parseTskvStep_take_encodeRecord records[k] hm),
        List.nil_append]
    · rcases take_encodeRecord_status records[k] hm with hnone | ⟨in_, hs, hr⟩
      · exact .inl hnone
      · right
        rw [hs]
        exact hr

/-- A record with an upper-case key and a tab in its value: read whole, and cut inside the escape
of the tab. -/
theorem parseTskv_encodeRecords_escaped_tab :
    parseTskv (encodeRecords [[([65], [9])]]) = [.record [([97], [9])]] ∧
      parseTskv ((encodeRecords [[([65], [9])]]).take 8) =
        [.incomplete ((encodeRecords [[([65], [9])]]).take 8)] := by
  obtain ⟨hwhole, hcut⟩ := parseTskv_encodeRecords [[([65], [9])]]
  obtain ⟨k, hk, m, hm, htake, hparse, -⟩ := hcut 8 (by decide)
  obtain rfl : k = 0 := by simpa using hk
  have hrecord : (encodeRecord [([65], [9])]).length = 10 := by decide
  have hm8 : m = 8 := by
    have hlen := congrArg List.length htake
    simp only [List.getElem_cons_zero, hrecord, List.length_take, List.length_append] at hm hlen
    simp [encodeRecords] at hlen
    omega
  subst hm8
  refine ⟨hwhole.trans (by decide), hparse.trans ?_⟩
  simp only [List.getElem_cons_zero]
  decide

end Tskv

end Userver
