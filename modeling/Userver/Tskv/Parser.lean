import Userver.Lib.Loop

/-!
# The TSKV parser

`utils::encoding::TskvParser` (`tskv_parser.cpp`) reads TSKV records from a `std::string_view`
`in_` that each call shortens from the front.  Here the parser is that rest of the input, which
every method returns with its result, and a pointer into the input is the rest of the input from
there.  The `while (true)` loop of a method is `Loop.run` of its body, on fuel one more than the
bytes left: every iteration that goes on consumes a byte (the `*_decreasing` lemmas), so the fuel
never runs out.

`TskvReadRecord` (`tskv_parser_read.hpp`) reads the pairs of one record and hands each to a
consumer; here it also returns the pairs it handed over, in order.  `parseTskv` is the loop that
reads a whole text in the parser's documented sample, `ParseTskv` of `tskv_parser_test.cpp`.
-/

namespace Userver

namespace Tskv

/-- `TskvParser::RecordStatus`. -/
inductive RecordStatus where
  /-- the whole record was read -/
  | kReachedEnd
  /-- the record ends abruptly -/
  | kIncomplete
  deriving DecidableEq, Repr

/-- `kTskv`, the start of a record. -/
def kTskv : List UInt8 := "tskv\t".toList.map Char.toUInt8

/-- `in_.find_first_of(set)`: the bytes before the first one in `set`, and the rest from it,
which is empty when there is none (`npos`). -/
def findFirstOf (set in_ : List UInt8) : List UInt8 × List UInt8 :=
  (in_.takeWhile fun c => c ∉ set, in_.dropWhile fun c => c ∉ set)

theorem findFirstOf_cons_of_not_mem {set : List UInt8} {c : UInt8} (h : c ∉ set)
    (in_ : List UInt8) :
    findFirstOf set (c :: in_) = (c :: (findFirstOf set in_).1, (findFirstOf set in_).2) := by
  simp [findFirstOf, h]

theorem findFirstOf_cons_of_mem {set : List UInt8} {c : UInt8} (h : c ∈ set) (in_ : List UInt8) :
    findFirstOf set (c :: in_) = ([], c :: in_) := by
  simp [findFirstOf, h]

theorem append_of_findFirstOf_eq {set in_ chunk rest : List UInt8}
    (h : findFirstOf set in_ = (chunk, rest)) : chunk ++ rest = in_ := by
  simp only [findFirstOf, Prod.mk.injEq] at h
  rw [← h.1, ← h.2, List.takeWhile_append_dropWhile]

/-- `GetUnescapedChar`. -/
def getUnescapedChar (secondChar : UInt8) : Option UInt8 :=
  if secondChar = 'n'.toUInt8 then some '\n'.toUInt8
  else if secondChar = 'r'.toUInt8 then some '\r'.toUInt8
  else if secondChar = 't'.toUInt8 then some '\t'.toUInt8
  else if secondChar = '0'.toUInt8 then some 0
  else if secondChar = '\\'.toUInt8 then some '\\'.toUInt8
  else if secondChar = '='.toUInt8 then some '='.toUInt8
  else none

/-- `Unescape(second_char, result)`: the number of bytes consumed, and `result` with what it
appends.  An unsupported escape is kept as a garbage backslash. -/
def unescape (secondChar : UInt8) (result : List UInt8) : Nat × List UInt8 :=
  match getUnescapedChar secondChar with
  | some unescaped => (2, result ++ [unescaped])
  | none => (1, result ++ ['\\'.toUInt8])

theorem unescape_of_getUnescapedChar {secondChar unescaped : UInt8}
    (h : getUnescapedChar secondChar = some unescaped) (result : List UInt8) :
    unescape secondChar result = (2, result ++ [unescaped]) := by
  simp [unescape, h]

theorem unescape_fst_pos (secondChar : UInt8) (result : List UInt8) :
    0 < (unescape secondChar result).1 := by
  unfold unescape
  split <;> simp

/-! ## `SkipToRecordBegin` and `SkipToRecordEnd` -/

/-- An iteration of `SkipToRecordBegin`: the record begin and the parser after `kTskv`, or
`nullptr` when no newline is left, or the parser after the next newline. -/
def skipToRecordBeginStep (in_ : List UInt8) : (Option (List UInt8) × List UInt8) ⊕ List UInt8 :=
  if kTskv.isPrefixOf in_ then .inl (some in_, in_.drop kTskv.length)
  else
    match findFirstOf ['\n'.toUInt8] in_ with
    | (_, []) => .inl (none, in_)
    | (_, _ :: after) => .inr after

/-- `TskvParser::SkipToRecordBegin`. -/
def skipToRecordBegin (in_ : List UInt8) : Option (List UInt8) × List UInt8 :=
  Loop.run skipToRecordBeginStep (fun in_ => (none, in_)) (in_.length + 1) in_

theorem length_le_of_kTskv_isPrefixOf {in_ : List UInt8} (h : kTskv.isPrefixOf in_ = true) :
    kTskv.length ≤ in_.length :=
  (List.isPrefixOf_iff_prefix.mp h).length_le

/-- An iteration that finds a record begin consumes `kTskv`; one that goes on consumes a
line. -/
theorem skipToRecordBeginStep_length (in_ : List UInt8) :
    Sum.elim (fun x => x.1 ≠ none → x.2.length < in_.length) (fun s => s.length < in_.length)
      (skipToRecordBeginStep in_) := by
  unfold skipToRecordBeginStep
  split
  · rename_i hprefix
    have hle := length_le_of_kTskv_isPrefixOf hprefix
    have hpos : 0 < kTskv.length := by decide
    simp only [Sum.elim_inl, List.length_drop]
    omega
  · rcases h : findFirstOf ['\n'.toUInt8] in_ with ⟨line, _ | ⟨newline, after⟩⟩
    · simp
    · rw [← append_of_findFirstOf_eq h]
      simp only [Sum.elim_inr, List.length_append, List.length_cons]
      omega

theorem skipToRecordBeginStep_decreasing : Loop.Decreasing skipToRecordBeginStep List.length := by
  intro in_ s' h
  have hlen := skipToRecordBeginStep_length in_
  rw [h] at hlen
  exact hlen

/-- A record begin that is found leaves the parser past `kTskv`. -/
theorem skipToRecordBegin_length_lt {in_ : List UInt8} (h : (skipToRecordBegin in_).1 ≠ none) :
    (skipToRecordBegin in_).2.length < in_.length := by
  unfold skipToRecordBegin at h ⊢
  refine Loop.run_of_measure_le skipToRecordBeginStep_decreasing
    (fun x => x.1 ≠ none → x.2.length < in_.length) ?_ ?_ (in_.length + 1) in_ le_rfl h
  · intro s x hs hx hsome
    have hlen := skipToRecordBeginStep_length s
    rw [hx] at hlen
    exact lt_of_lt_of_le (hlen hsome) hs
  · intro s _ hnone
    exact (hnone rfl).elim

theorem skipToRecordBegin_kTskv_append (rest : List UInt8) :
    skipToRecordBegin (kTskv ++ rest) = (some (kTskv ++ rest), rest) := by
  have hprefix : kTskv.isPrefixOf (kTskv ++ rest) = true :=
    List.isPrefixOf_iff_prefix.mpr (List.prefix_append _ _)
  have hstep : skipToRecordBeginStep (kTskv ++ rest) = .inl (some (kTskv ++ rest), rest) := by
    simp only [skipToRecordBeginStep, hprefix, if_true, List.drop_left]
  exact Loop.run_of_inl hstep _

/-- A text too short to hold `kTskv` and without a newline has no record begin. -/
theorem skipToRecordBegin_take_kTskv :
    ∀ m < kTskv.length, skipToRecordBegin (kTskv.take m) = (none, kTskv.take m) := by
  decide

/-- `TskvParser::SkipToRecordEnd`. -/
def skipToRecordEnd (in_ : List UInt8) : RecordStatus × List UInt8 :=
  match findFirstOf ['\n'.toUInt8] in_ with
  | (_, []) => (.kIncomplete, in_)
  | (_, _ :: after) => (.kReachedEnd, after)

theorem skipToRecordEnd_length_le (in_ : List UInt8) :
    (skipToRecordEnd in_).2.length ≤ in_.length := by
  unfold skipToRecordEnd
  rcases h : findFirstOf ['\n'.toUInt8] in_ with ⟨line, _ | ⟨newline, after⟩⟩
  · simp
  · rw [← append_of_findFirstOf_eq h]
    simp only [List.length_append, List.length_cons]
    omega

/-! ## `ReadKey` and `ReadValue` -/

/-- What `ReadKey` and `ReadValue` return: the optional status, the key or value read, and the
parser. -/
abbrev ReadResult := Option RecordStatus × List UInt8 × List UInt8

/-- Two results of a read agree: they are equal, or both report an incomplete record.  What an
incomplete read leaves behind is not looked at: the reader stops and waits for more input. -/
def SameOutcome (x y : ReadResult) : Prop :=
  x = y ∨ (x.1 = some .kIncomplete ∧ y.1 = some .kIncomplete)

namespace SameOutcome

theorem refl (x : ReadResult) : SameOutcome x x := .inl rfl

theorem trans {x y z : ReadResult} (hxy : SameOutcome x y) (hyz : SameOutcome y z) :
    SameOutcome x z := by
  rcases hxy with rfl | ⟨hx, hy⟩
  · exact hyz
  · rcases hyz with rfl | ⟨_, hz⟩
    · exact .inr ⟨hx, hy⟩
    · exact .inr ⟨hx, hz⟩

theorem eq_of_ne {x y : ReadResult} (h : SameOutcome x y) (hy : y.1 ≠ some .kIncomplete) :
    x = y := by
  rcases h with h | ⟨_, hy'⟩
  · exact h
  · exact absurd hy' hy

theorem incomplete {x y : ReadResult} (h : SameOutcome x y) (hy : y.1 = some .kIncomplete) :
    x.1 = some .kIncomplete := by
  rcases h with rfl | ⟨hx, _⟩
  · exact hy
  · exact hx

end SameOutcome

/-- Runs of a read loop agree when their first iterations do the same, or both report an
incomplete record. -/
theorem sameOutcome_run {body : List UInt8 × List UInt8 → ReadResult ⊕ (List UInt8 × List UInt8)}
    {stop : List UInt8 × List UInt8 → ReadResult} (hd : Loop.Decreasing body fun s => s.2.length)
    {s t : List UInt8 × List UInt8}
    (h : body s = body t ∨ ∃ x y, body s = .inl x ∧ body t = .inl y ∧
      x.1 = some .kIncomplete ∧ y.1 = some .kIncomplete)
    {fuel fuel' : Nat} (hs : s.2.length < fuel) (ht : t.2.length < fuel') :
    SameOutcome (Loop.run body stop fuel s) (Loop.run body stop fuel' t) := by
  refine Loop.run_rel SameOutcome.refl hd ?_ ?_ hs ht
  · intro t' ht'
    rcases h with h | ⟨x, y, _, hy, _⟩
    · rw [h, ht']
    · rw [hy] at ht'
      cases ht'
  · intro b hb
    rcases h with h | ⟨x, y, hx, hy, hxi, hyi⟩
    · exact ⟨b, h.trans hb, SameOutcome.refl b⟩
    · rw [hy] at hb
      cases hb
      exact ⟨x, hx, .inr ⟨hxi, hyi⟩⟩

/-- The bytes a key ends at: `"\\=\t\n"`. -/
def keySeparators : List UInt8 := ['\\'.toUInt8, '='.toUInt8, '\t'.toUInt8, '\n'.toUInt8]

/-- An iteration of `ReadKey` on the key read so far and the parser. -/
def readKeyStep : List UInt8 × List UInt8 → ReadResult ⊕ (List UInt8 × List UInt8)
  | (result, in_) =>
    match findFirstOf keySeparators in_ with
    | (_, []) => .inl (some .kIncomplete, result, in_)
    | (chunk, separator :: after) =>
      if separator = '='.toUInt8 then .inl (none, result ++ chunk, after)
      -- an otherwise empty record in a "\t\n" sequence is dropped
      else if separator = '\n'.toUInt8 ∧ chunk = [] then .inl (some .kReachedEnd, result, after)
      -- a key-only entry: the separator is left for `ReadValue`
      else if separator = '\t'.toUInt8 ∨ separator = '\n'.toUInt8 then
        .inl (none, result ++ chunk, separator :: after)
      else
        match after with
        | [] => .inl (some .kIncomplete, result, in_)
        | secondChar :: _ =>
          let (consumed, result) := unescape secondChar (result ++ chunk)
          .inr (result, (separator :: after).drop consumed)

/-- The loop of `ReadKey` from a key read so far. -/
def readKeyLoop (result in_ : List UInt8) : ReadResult :=
  Loop.run readKeyStep (fun s => (some .kIncomplete, s)) (in_.length + 1) (result, in_)

/-- `TskvParser::ReadKey`, which clears the result first. -/
def readKey (in_ : List UInt8) : ReadResult := readKeyLoop [] in_

theorem readKey_eq (in_ : List UInt8) : readKey in_ = readKeyLoop [] in_ := rfl

/-- Every iteration of `ReadKey` leaves the parser no longer; one that goes on shortens it. -/
theorem readKeyStep_length (result in_ : List UInt8) :
    Sum.elim (fun x => x.2.2.length ≤ in_.length) (fun s => s.2.length < in_.length)
      (readKeyStep (result, in_)) := by
  simp only [readKeyStep]
  rcases h : findFirstOf keySeparators in_ with ⟨chunk, _ | ⟨separator, after⟩⟩
  · simp
  · have hin := append_of_findFirstOf_eq h
    subst hin
    dsimp only
    split_ifs
    · simp only [Sum.elim_inl, List.length_append, List.length_cons]
      omega
    · simp only [Sum.elim_inl, List.length_append, List.length_cons]
      omega
    · simp
    · rcases after with _ | ⟨secondChar, after⟩
      · simp
      · -- an escape consumes the backslash at least
        have hpos := unescape_fst_pos secondChar (result ++ chunk)
        simp only [Sum.elim_inr, List.length_drop, List.length_cons, List.length_append]
        omega

theorem readKeyStep_decreasing : Loop.Decreasing readKeyStep fun s => s.2.length := by
  rintro ⟨result, in_⟩ s' h
  have hlen := readKeyStep_length result in_
  rw [h] at hlen
  exact hlen

theorem readKeyLoop_length_le (result in_ : List UInt8) :
    (readKeyLoop result in_).2.2.length ≤ in_.length := by
  unfold readKeyLoop
  refine Loop.run_of_measure_le readKeyStep_decreasing (fun x => x.2.2.length ≤ in_.length)
    ?_ ?_ (in_.length + 1) (result, in_) le_rfl
  · rintro ⟨result', in'⟩ x hs hx
    have hlen := readKeyStep_length result' in'
    rw [hx] at hlen
    exact le_trans hlen hs
  · intro s hs
    exact hs

theorem readKeyLoop_of_inl {result in_ : List UInt8} {x : ReadResult}
    (h : readKeyStep (result, in_) = .inl x) : readKeyLoop result in_ = x :=
  Loop.run_of_inl h _

theorem readKeyLoop_of_inr {result in_ result' in' : List UInt8}
    (h : readKeyStep (result, in_) = .inr (result', in')) :
    readKeyLoop result in_ = readKeyLoop result' in' :=
  Loop.run_of_inr readKeyStep_decreasing h (Nat.lt_succ_self _)

theorem readKeyLoop_nil (result : List UInt8) :
    readKeyLoop result [] = (some .kIncomplete, result, []) :=
  readKeyLoop_of_inl rfl

/-- A backslash at the end of the input is an incomplete escape. -/
theorem readKeyLoop_backslash (result : List UInt8) :
    readKeyLoop result ['\\'.toUInt8] = (some .kIncomplete, result, ['\\'.toUInt8]) :=
  readKeyLoop_of_inl rfl

theorem readKeyLoop_equals (result in_ : List UInt8) :
    readKeyLoop result ('='.toUInt8 :: in_) = (none, result, in_) := by
  apply readKeyLoop_of_inl
  simp [readKeyStep, findFirstOf_cons_of_mem (show '='.toUInt8 ∈ keySeparators by decide)]

/-- A newline where a key starts ends the record. -/
theorem readKeyLoop_newline (result in_ : List UInt8) :
    readKeyLoop result ('\n'.toUInt8 :: in_) = (some .kReachedEnd, result, in_) := by
  apply readKeyLoop_of_inl
  simp +decide [readKeyStep, findFirstOf_cons_of_mem (show '\n'.toUInt8 ∈ keySeparators by decide)]

theorem readKeyLoop_escape {secondChar unescaped : UInt8}
    (h : getUnescapedChar secondChar = some unescaped) (result in_ : List UInt8) :
    readKeyLoop result ('\\'.toUInt8 :: secondChar :: in_) =
      readKeyLoop (result ++ [unescaped]) in_ := by
  apply readKeyLoop_of_inr
  simp +decide [readKeyStep, findFirstOf_cons_of_mem (show '\\'.toUInt8 ∈ keySeparators by decide),
    unescape_of_getUnescapedChar h]

/-- A byte that no key ends at is read as the first of the chunk the iteration takes, unless
the input after it starts with a newline: alone, that newline would end the record. -/
theorem readKeyStep_cons {b : UInt8} (hb : b ∉ keySeparators) {in_ : List UInt8}
    (hin : in_.head? ≠ some '\n'.toUInt8) (result : List UInt8) :
    readKeyStep (result, b :: in_) = readKeyStep (result ++ [b], in_) ∨
      ∃ x y, readKeyStep (result, b :: in_) = .inl x ∧ readKeyStep (result ++ [b], in_) = .inl y ∧
        x.1 = some .kIncomplete ∧ y.1 = some .kIncomplete := by
  simp only [readKeyStep]
  rw [findFirstOf_cons_of_not_mem hb]
  rcases h : findFirstOf keySeparators in_ with ⟨chunk, _ | ⟨separator, after⟩⟩
  · -- no separator: both are incomplete
    exact .inr ⟨_, _, rfl, rfl, rfl, rfl⟩
  · have hnewline : ¬(separator = '\n'.toUInt8 ∧ chunk = []) := by
      rintro ⟨rfl, rfl⟩
      rw [← append_of_findFirstOf_eq h] at hin
      exact hin rfl
    simp only [List.append_assoc, List.singleton_append, reduceCtorEq, and_false, if_false,
      if_neg hnewline]
    split_ifs
    · exact .inl rfl
    · exact .inl rfl
    · rcases after with _ | ⟨secondChar, after⟩
      · exact .inr ⟨_, _, rfl, rfl, rfl, rfl⟩
      · exact .inl rfl

theorem readKeyLoop_cons {b : UInt8} (hb : b ∉ keySeparators) {in_ : List UInt8}
    (hin : in_.head? ≠ some '\n'.toUInt8) (result : List UInt8) :
    SameOutcome (readKeyLoop result (b :: in_)) (readKeyLoop (result ++ [b]) in_) :=
  sameOutcome_run readKeyStep_decreasing (readKeyStep_cons hb hin result)
    (Nat.lt_succ_self _) (Nat.lt_succ_self _)

/-- The bytes a value ends at: `"\\\t\n"`. -/
def valueSeparators : List UInt8 := ['\\'.toUInt8, '\t'.toUInt8, '\n'.toUInt8]

/-- An iteration of `ReadValue` on the value read so far and the parser. -/
def readValueStep : List UInt8 × List UInt8 → ReadResult ⊕ (List UInt8 × List UInt8)
  | (result, in_) =>
    match findFirstOf valueSeparators in_ with
    | (_, []) => .inl (some .kIncomplete, result, in_)
    | (chunk, separator :: after) =>
      if separator ≠ '\\'.toUInt8 then
        .inl (if separator = '\n'.toUInt8 then some .kReachedEnd else none, result ++ chunk, after)
      else
        match after with
        | [] => .inl (some .kIncomplete, result, in_)
        | secondChar :: _ =>
          let (consumed, result) := unescape secondChar (result ++ chunk)
          .inr (result, (separator :: after).drop consumed)

/-- The loop of `ReadValue` from a value read so far. -/
def readValueLoop (result in_ : List UInt8) : ReadResult :=
  Loop.run readValueStep (fun s => (some .kIncomplete, s)) (in_.length + 1) (result, in_)

/-- `TskvParser::ReadValue`, which clears the result first. -/
def readValue (in_ : List UInt8) : ReadResult := readValueLoop [] in_

theorem readValue_eq (in_ : List UInt8) : readValue in_ = readValueLoop [] in_ := rfl

/-- Every iteration of `ReadValue` leaves the parser no longer, and shorter unless it reports
an incomplete record; one that goes on shortens it. -/
theorem readValueStep_length (result in_ : List UInt8) :
    Sum.elim
      (fun x => x.2.2.length ≤ in_.length ∧ (x.1 ≠ some .kIncomplete → x.2.2.length < in_.length))
      (fun s => s.2.length < in_.length) (readValueStep (result, in_)) := by
  simp only [readValueStep]
  rcases h : findFirstOf valueSeparators in_ with ⟨chunk, _ | ⟨separator, after⟩⟩
  · simp
  · have hin := append_of_findFirstOf_eq h
    subst hin
    dsimp only
    by_cases hsep : separator ≠ '\\'.toUInt8
    · -- a tab or a newline ends the value
      rw [if_pos hsep]
      simp only [Sum.elim_inl, List.length_append, List.length_cons]
      exact ⟨by omega, fun _ => by omega⟩
    · rw [if_neg hsep]
      rcases after with _ | ⟨secondChar, after⟩
      · simp
      · have hpos := unescape_fst_pos secondChar (result ++ chunk)
        simp only [Sum.elim_inr, List.length_drop, List.length_cons, List.length_append]
        omega

theorem readValueStep_decreasing : Loop.Decreasing readValueStep fun s => s.2.length := by
  rintro ⟨result, in_⟩ s' h
  have hlen := readValueStep_length result in_
  rw [h] at hlen
  exact hlen

theorem readValueLoop_length (result in_ : List UInt8) :
    (readValueLoop result in_).2.2.length ≤ in_.length ∧
      ((readValueLoop result in_).1 ≠ some .kIncomplete →
        (readValueLoop result in_).2.2.length < in_.length) := by
  unfold readValueLoop
  refine Loop.run_of_measure_le readValueStep_decreasing
    (fun x => x.2.2.length ≤ in_.length ∧ (x.1 ≠ some .kIncomplete → x.2.2.length < in_.length))
    ?_ ?_ (in_.length + 1) (result, in_) le_rfl
  · rintro ⟨result', in'⟩ x hs hx
    have hlen := readValueStep_length result' in'
    rw [hx] at hlen
    exact ⟨le_trans hlen.1 hs, fun hne => lt_of_lt_of_le (hlen.2 hne) hs⟩
  · intro s hs
    exact ⟨hs, fun hne => (hne rfl).elim⟩

theorem readValueLoop_of_inl {result in_ : List UInt8} {x : ReadResult}
    (h : readValueStep (result, in_) = .inl x) : readValueLoop result in_ = x :=
  Loop.run_of_inl h _

theorem readValueLoop_of_inr {result in_ result' in' : List UInt8}
    (h : readValueStep (result, in_) = .inr (result', in')) :
    readValueLoop result in_ = readValueLoop result' in' :=
  Loop.run_of_inr readValueStep_decreasing h (Nat.lt_succ_self _)

theorem readValueLoop_nil (result : List UInt8) :
    readValueLoop result [] = (some .kIncomplete, result, []) :=
  readValueLoop_of_inl rfl

theorem readValueLoop_backslash (result : List UInt8) :
    readValueLoop result ['\\'.toUInt8] = (some .kIncomplete, result, ['\\'.toUInt8]) :=
  readValueLoop_of_inl rfl

/-- A tab ends the value and the pair. -/
theorem readValueLoop_tab (result in_ : List UInt8) :
    readValueLoop result ('\t'.toUInt8 :: in_) = (none, result, in_) := by
  apply readValueLoop_of_inl
  simp +decide [readValueStep, findFirstOf_cons_of_mem (show '\t'.toUInt8 ∈ valueSeparators by decide)]

/-- A newline ends the value and the record. -/
theorem readValueLoop_newline (result in_ : List UInt8) :
    readValueLoop result ('\n'.toUInt8 :: in_) = (some .kReachedEnd, result, in_) := by
  apply readValueLoop_of_inl
  simp +decide [readValueStep,
    findFirstOf_cons_of_mem (show '\n'.toUInt8 ∈ valueSeparators by decide)]

theorem readValueLoop_escape {secondChar unescaped : UInt8}
    (h : getUnescapedChar secondChar = some unescaped) (result in_ : List UInt8) :
    readValueLoop result ('\\'.toUInt8 :: secondChar :: in_) =
      readValueLoop (result ++ [unescaped]) in_ := by
  apply readValueLoop_of_inr
  simp +decide [readValueStep,
    findFirstOf_cons_of_mem (show '\\'.toUInt8 ∈ valueSeparators by decide),
    unescape_of_getUnescapedChar h]

/-- A byte that no value ends at is read as the first of the chunk the iteration takes. -/
theorem readValueStep_cons {b : UInt8} (hb : b ∉ valueSeparators) (in_ result : List UInt8) :
    readValueStep (result, b :: in_) = readValueStep (result ++ [b], in_) ∨
      ∃ x y, readValueStep (result, b :: in_) = .inl x ∧
        readValueStep (result ++ [b], in_) = .inl y ∧
        x.1 = some .kIncomplete ∧ y.1 = some .kIncomplete := by
  simp only [readValueStep]
  rw [findFirstOf_cons_of_not_mem hb]
  rcases findFirstOf valueSeparators in_ with ⟨chunk, _ | ⟨separator, after⟩⟩
  · -- no separator: both are incomplete
    exact .inr ⟨_, _, rfl, rfl, rfl, rfl⟩
  · simp only [List.append_assoc, List.singleton_append]
    by_cases hsep : separator ≠ '\\'.toUInt8
    · rw [if_pos hsep, if_pos hsep]
      exact .inl rfl
    · rw [if_neg hsep, if_neg hsep]
      rcases after with _ | ⟨secondChar, after⟩
      · exact .inr ⟨_, _, rfl, rfl, rfl, rfl⟩
      · exact .inl rfl

theorem readValueLoop_cons {b : UInt8} (hb : b ∉ valueSeparators) (in_ result : List UInt8) :
    SameOutcome (readValueLoop result (b :: in_)) (readValueLoop (result ++ [b]) in_) :=
  sameOutcome_run readValueStep_decreasing (readValueStep_cons hb in_ result)
    (Nat.lt_succ_self _) (Nat.lt_succ_self _)

/-! ## `TskvReadRecord` and the reading loop -/

/-- A key and a value, as handed to the consumer. -/
abbrev Tag := List UInt8 × List UInt8

/-- An iteration of `TskvReadRecord` on the pairs handed to the consumer so far and the
parser. -/
def tskvReadRecordStep (consumer : List UInt8 → List UInt8 → Bool) :
    List Tag × List UInt8 → (RecordStatus × List Tag × List UInt8) ⊕ (List Tag × List UInt8)
  | (consumed, in_) =>
    match readKey in_ with
    | (some keyStatus, _, in_) => .inl (keyStatus, consumed, in_)
    | (none, key, in_) =>
      let (valueStatus, value, in_) := readValue in_
      if valueStatus = some .kIncomplete then .inl (.kIncomplete, consumed, in_)
      else
        let recordOk := consumer key value
        let consumed := consumed ++ [(key, value)]
        if valueStatus = some .kReachedEnd then .inl (.kReachedEnd, consumed, in_)
        else if !recordOk then
          let (status, in_) := skipToRecordEnd in_
          .inl (status, consumed, in_)
        else .inr (consumed, in_)

/-- Every iteration of `TskvReadRecord` leaves the parser no longer; one that goes on has read
a value up to its tab, and shortened it. -/
theorem tskvReadRecordStep_length (consumer : List UInt8 → List UInt8 → Bool)
    (consumed : List Tag) (in_ : List UInt8) :
    Sum.elim (fun x => x.2.2.length ≤ in_.length) (fun s => s.2.length < in_.length)
      (tskvReadRecordStep consumer (consumed, in_)) := by
  simp only [tskvReadRecordStep]
  have hkey := readKeyLoop_length_le [] in_
  rw [← readKey_eq] at hkey
  rcases hk : readKey in_ with ⟨_ | keyStatus, key, in1⟩
  · rw [hk] at hkey
    have hvalue := readValueLoop_length [] in1
    rw [← readValue_eq] at hvalue
    rcases hv : readValue in1 with ⟨valueStatus, value, in2⟩
    rw [hv] at hvalue
    dsimp only at hkey hvalue ⊢
    rw [hv]
    split_ifs with hincomplete
    · simp only [Sum.elim_inl]
      omega
    · have hlt := hvalue.2 hincomplete
      simp only [Sum.elim_inl]
      omega
    · have hlt := hvalue.2 hincomplete
      have hend := skipToRecordEnd_length_le in2
      simp only [Sum.elim_inl]
      omega
    · have hlt := hvalue.2 hincomplete
      simp only [Sum.elim_inr]
      omega
  · rw [hk] at hkey
    exact hkey

theorem tskvReadRecordStep_decreasing (consumer : List UInt8 → List UInt8 → Bool) :
    Loop.Decreasing (tskvReadRecordStep consumer) fun s => s.2.length := by
  rintro ⟨consumed, in_⟩ s' h
  have hlen := tskvReadRecordStep_length consumer consumed in_
  rw [h] at hlen
  exact hlen

/-- The loop of `TskvReadRecord` from the pairs handed to the consumer so far. -/
def tskvReadRecordLoop (consumer : List UInt8 → List UInt8 → Bool) (consumed : List Tag)
    (in_ : List UInt8) : RecordStatus × List Tag × List UInt8 :=
  Loop.run (tskvReadRecordStep consumer) (fun s => (.kIncomplete, s)) (in_.length + 1)
    (consumed, in_)

/-- `TskvReadRecord(parser, consumer)`: the status, the pairs handed to the consumer, and the
parser. -/
def tskvReadRecord (consumer : List UInt8 → List UInt8 → Bool) (in_ : List UInt8) :
    RecordStatus × List Tag × List UInt8 :=
  tskvReadRecordLoop consumer [] in_

theorem tskvReadRecordLoop_length_le (consumer : List UInt8 → List UInt8 → Bool)
    (consumed : List Tag) (in_ : List UInt8) :
    (tskvReadRecordLoop consumer consumed in_).2.2.length ≤ in_.length := by
  unfold tskvReadRecordLoop
  refine Loop.run_of_measure_le (tskvReadRecordStep_decreasing consumer)
    (fun x => x.2.2.length ≤ in_.length) ?_ ?_ (in_.length + 1) (consumed, in_) le_rfl
  · rintro ⟨consumed', in'⟩ x hs hx
    have hlen := tskvReadRecordStep_length consumer consumed' in'
    rw [hx] at hlen
    exact le_trans hlen hs
  · intro s hs
    exact hs

theorem tskvReadRecordLoop_of_inl {consumer : List UInt8 → List UInt8 → Bool}
    {consumed : List Tag} {in_ : List UInt8} {x : RecordStatus × List Tag × List UInt8}
    (h : tskvReadRecordStep consumer (consumed, in_) = .inl x) :
    tskvReadRecordLoop consumer consumed in_ = x :=
  Loop.run_of_inl h _

theorem tskvReadRecordLoop_of_inr {consumer : List UInt8 → List UInt8 → Bool}
    {consumed consumed' : List Tag} {in_ in' : List UInt8}
    (h : tskvReadRecordStep consumer (consumed, in_) = .inr (consumed', in')) :
    tskvReadRecordLoop consumer consumed in_ = tskvReadRecordLoop consumer consumed' in' :=
  Loop.run_of_inr (tskvReadRecordStep_decreasing consumer) h (Nat.lt_succ_self _)

/-! The iterations of `TskvReadRecord`, by what `ReadKey` and `ReadValue` return. -/

theorem tskvReadRecordStep_of_key_status {consumer : List UInt8 → List UInt8 → Bool}
    {in_ : List UInt8} {status : RecordStatus} (h : (readKey in_).1 = some status)
    (consumed : List Tag) :
    tskvReadRecordStep consumer (consumed, in_) = .inl (status, consumed, (readKey in_).2.2) := by
  rcases hk : readKey in_ with ⟨keyStatus, key, in1⟩
  rw [hk] at h
  subst h
  simp only [tskvReadRecordStep, hk]

theorem tskvReadRecordStep_of_value_incomplete {consumer : List UInt8 → List UInt8 → Bool}
    {in_ key in1 : List UInt8} (hk : readKey in_ = (none, key, in1))
    (hv : (readValue in1).1 = some .kIncomplete) (consumed : List Tag) :
    tskvReadRecordStep consumer (consumed, in_) =
      .inl (.kIncomplete, consumed, (readValue in1).2.2) := by
  simp only [tskvReadRecordStep, hk, hv, if_true]

theorem tskvReadRecordStep_of_value_end {consumer : List UInt8 → List UInt8 → Bool}
    {in_ key in1 value in2 : List UInt8} (hk : readKey in_ = (none, key, in1))
    (hv : readValue in1 = (some .kReachedEnd, value, in2)) (consumed : List Tag) :
    tskvReadRecordStep consumer (consumed, in_) =
      .inl (.kReachedEnd, consumed ++ [(key, value)], in2) := by
  simp [tskvReadRecordStep, hk, hv]

theorem tskvReadRecordStep_of_value_tab {consumer : List UInt8 → List UInt8 → Bool}
    {in_ key in1 value in2 : List UInt8} (hk : readKey in_ = (none, key, in1))
    (hv : readValue in1 = (none, value, in2)) (hc : consumer key value = true)
    (consumed : List Tag) :
    tskvReadRecordStep consumer (consumed, in_) = .inr (consumed ++ [(key, value)], in2) := by
  simp [tskvReadRecordStep, hk, hv, hc]

/-- `SingleParsedRecord` of the sample. -/
inductive SingleParsedRecord where
  | record (tags : List Tag)
  | junk (data : List UInt8)
  | incomplete (data : List UInt8)
  deriving DecidableEq, Repr

/-- `account_incomplete`: the input left from a position, unless it is empty. -/
def accountIncomplete (remaining : List UInt8) : List SingleParsedRecord :=
  if remaining = [] then [] else [.incomplete remaining]

/-- An iteration of the reading loop of the sample on what it has parsed and the parser.  The
junk before a record is what lies between the parser's position and the record begin. -/
def parseTskvStep :
    List SingleParsedRecord × List UInt8 →
      List SingleParsedRecord ⊕ (List SingleParsedRecord × List UInt8)
  | (result, in_) =>
    let junkBegin := in_
    match skipToRecordBegin in_ with
    | (none, _) => .inl (result ++ accountIncomplete junkBegin)
    | (some recordBegin, in_) =>
      let result :=
        if recordBegin.length ≠ junkBegin.length then
          result ++ [.junk (junkBegin.take (junkBegin.length - recordBegin.length))]
        else result
      let (status, tags, in_) := tskvReadRecord (fun _ _ => true) in_
      if status = .kIncomplete then .inl (result ++ accountIncomplete recordBegin)
      else .inr (result ++ [.record tags], in_)

/-- An iteration of the reading loop that goes on has read a whole record, after a record
begin. -/
theorem parseTskvStep_decreasing : Loop.Decreasing parseTskvStep fun s => s.2.length := by
  rintro ⟨result, in_⟩ ⟨result', in'⟩ h
  simp only [parseTskvStep] at h
  rcases hs : skipToRecordBegin in_ with ⟨_ | recordBegin, in1⟩
  · rw [hs] at h
    cases h
  · have hbegin := skipToRecordBegin_length_lt
      (show (skipToRecordBegin in_).1 ≠ none by rw [hs]; simp)
    rw [hs] at hbegin h
    dsimp only at h hbegin ⊢
    -- the junk before the record only changes what has been parsed
    generalize (if recordBegin.length ≠ in_.length then _ else result) = parsed at h
    -- only an iteration that read the record whole goes on
    split_ifs at h
    simp only [Sum.inr.injEq, Prod.mk.injEq] at h
    rw [← h.2]
    exact lt_of_le_of_lt (tskvReadRecordLoop_length_le _ [] in1) hbegin

/-- The reading loop from what it has parsed so far. -/
def parseTskvLoop (result : List SingleParsedRecord) (in_ : List UInt8) :
    List SingleParsedRecord :=
  Loop.run parseTskvStep (fun s => s.1) (in_.length + 1) (result, in_)

/-- `ParseTskv` of the sample: the records of the input, with the junk between them and an
incomplete record at its end. -/
def parseTskv (in_ : List UInt8) : List SingleParsedRecord := parseTskvLoop [] in_

/-- Junk before a record and a record cut after its `=`, as in `start_q_newline` and
`no_newline_3` of the parser's tests. -/
example :
    parseTskv ("q\ntskv\tk=v\ntskv\tk=".toList.map Char.toUInt8) =
      [.junk ("q\n".toList.map Char.toUInt8),
        .record [("k".toList.map Char.toUInt8, "v".toList.map Char.toUInt8)],
        .incomplete ("tskv\tk=".toList.map Char.toUInt8)] := by
  decide

theorem parseTskvLoop_of_inl {result : List SingleParsedRecord} {in_ : List UInt8}
    {parsed : List SingleParsedRecord} (h : parseTskvStep (result, in_) = .inl parsed) :
    parseTskvLoop result in_ = parsed :=
  Loop.run_of_inl h _

theorem parseTskvLoop_of_inr {result result' : List SingleParsedRecord} {in_ in' : List UInt8}
    (h : parseTskvStep (result, in_) = .inr (result', in')) :
    parseTskvLoop result in_ = parseTskvLoop result' in' :=
  Loop.run_of_inr parseTskvStep_decreasing h (Nat.lt_succ_self _)

/-! The iterations of the reading loop, by what `SkipToRecordBegin` and `TskvReadRecord`
return.  With the record begin at the parser's position there is no junk. -/

theorem parseTskvStep_of_no_record_begin {in_ : List UInt8}
    (h : (skipToRecordBegin in_).1 = none) (result : List SingleParsedRecord) :
    parseTskvStep (result, in_) = .inl (result ++ accountIncomplete in_) := by
  rcases hs : skipToRecordBegin in_ with ⟨recordBegin, in1⟩
  rw [hs] at h
  subst h
  simp only [parseTskvStep, hs]

theorem parseTskvStep_of_incomplete {in_ in1 : List UInt8}
    (hs : skipToRecordBegin in_ = (some in_, in1))
    (hr : (tskvReadRecord (fun _ _ => true) in1).1 = .kIncomplete)
    (result : List SingleParsedRecord) :
    parseTskvStep (result, in_) = .inl (result ++ accountIncomplete in_) := by
  simp [parseTskvStep, hs, hr]

theorem parseTskvStep_of_record {in_ in1 in2 : List UInt8} {tags : List Tag}
    (hs : skipToRecordBegin in_ = (some in_, in1))
    (hr : tskvReadRecord (fun _ _ => true) in1 = (.kReachedEnd, tags, in2))
    (result : List SingleParsedRecord) :
    parseTskvStep (result, in_) = .inr (result ++ [.record tags], in2) := by
  simp [parseTskvStep, hs, hr]

end Tskv

end Userver
