import Mathlib

/-!
# Header names, their hashes and their indices

A header name is a `std::string`, a string of bytes (`Bytes`).  Names are compared by
`utils::StrIcaseEqual`: equal after the ASCII letters 'A'..'Z' are lowered.  A `HeaderMap` hashes
them with one of two hashers, chosen by its `Danger` state (`danger.cpp`): in the green and yellow
states with `impl::UnsafeConstexprHasher`, a MurmurHash that reads every byte with bit `0x20`
set (`kDeliberatelyBrokenLowercaseMask`), and in the red state with `utils::StrIcaseHash`, a
case-insensitive SipHash under the random seed drawn by `ToRed`.  The SipHash itself is left
abstract: the model takes it as the parameter `sipHash k0 k1 key`.

* `unsafeConstexprHasher_eq_of_foldBytes`: the unsafe hash of a name depends only on its bytes
  with bit `0x20` set.  So names equal up to case have one hash
  (`unsafeConstexprHasher_eq_of_strIcaseEqual`), and so do `"["` and `"{"`, which is what a
  hash flood uses.
* `strIcaseEqual_of_headerIndex_eq`: the index `GetHeaderIndexForLookup` gives a
  `PredefinedHeader` equals the index `GetHeaderIndexForInsertion` gives a stored name only when
  the two names are equal up to case: the index is a sound short cut for the comparison.
-/

namespace Userver

namespace Http

namespace Headers

/-- A `std::string`: its bytes. -/
abbrev Bytes := List UInt8

/-- The bytes of an ASCII string literal. -/
def bytesOf (s : String) : Bytes := s.toList.map fun c => c.toNat.toUInt8

/-! ## Case-insensitive comparison -/

/-- An ASCII letter 'A'..'Z' lowered, any other byte itself (`kUppercaseToLowerMask`). -/
def toLowerAscii (c : UInt8) : UInt8 := if 65 ≤ c ∧ c ≤ 90 then c ||| 32 else c

/-- `utils::StrIcaseEqual`: equal after lowering the ASCII letters. -/
def strIcaseEqual (lhs rhs : Bytes) : Bool := lhs.map toLowerAscii == rhs.map toLowerAscii

theorem strIcaseEqual_iff {lhs rhs : Bytes} :
    strIcaseEqual lhs rhs = true ↔ lhs.map toLowerAscii = rhs.map toLowerAscii := by
  simp [strIcaseEqual]

theorem strIcaseEqual_refl (s : Bytes) : strIcaseEqual s s = true := by
  simp [strIcaseEqual]

theorem strIcaseEqual_comm (lhs rhs : Bytes) : strIcaseEqual lhs rhs = strIcaseEqual rhs lhs := by
  rw [Bool.eq_iff_iff, strIcaseEqual_iff, strIcaseEqual_iff]
  exact eq_comm

/-! ## The unsafe hasher -/

/-- A byte with bit `0x20` set, as the unsafe hasher reads it. -/
def foldByte (c : UInt8) : UInt8 := c ||| 0x20

/-- A string read byte by byte through `foldByte`. -/
def foldBytes (s : Bytes) : Bytes := s.map foldByte

/-- Lowering a letter does not change what the unsafe hasher reads. -/
theorem foldByte_toLowerAscii (c : UInt8) : foldByte (toLowerAscii c) = foldByte c := by
  unfold foldByte toLowerAscii
  split_ifs
  · rw [UInt8.or_assoc, UInt8.or_self]
  · rfl

namespace UnsafeConstexprHasher

/-- `mul`, the MurmurHash multiplier. -/
def mul : UInt64 := ((0xc6a4a793 : UInt64) <<< 32) + 0x5bd1e995

/-- `seed_`. -/
def seed : UInt64 := 54999

/-- `kDeliberatelyBrokenLowercaseMask`. -/
def kDeliberatelyBrokenLowercaseMask : UInt64 := 0x2020202020202020

/-- `ShiftMix`. -/
def shiftMix (v : UInt64) : UInt64 := v ^^^ (v >>> 47)

/-- `LoadN`: the first `n` bytes of `data`, little endian, over the mask that sets bit `0x20`
of each of them. -/
def loadN (data : Bytes) (n : Nat) : UInt64 :=
  (List.range n).foldl (fun result i => result ||| ((data.getD i 0).toUInt64 <<< (8 * i).toUInt64))
    (kDeliberatelyBrokenLowercaseMask >>> (8 * (8 - n)).toUInt64)

/-- `Load8`. -/
def load8 (data : Bytes) : UInt64 := loadN data 8

/-- The loop over the 8-byte blocks of the string, then the tail of fewer than 8 bytes. -/
def hashChunks (hash : UInt64) : Bytes → UInt64
  | b0 :: b1 :: b2 :: b3 :: b4 :: b5 :: b6 :: b7 :: rest =>
    let data := shiftMix (load8 [b0, b1, b2, b3, b4, b5, b6, b7] * mul) * mul
    hashChunks ((hash ^^^ data) * mul) rest
  | tail =>
    if tail.isEmpty then hash
    else (hash ^^^ loadN tail tail.length) * mul

end UnsafeConstexprHasher

open UnsafeConstexprHasher in
/-- `impl::UnsafeConstexprHasher::operator()`. -/
def unsafeConstexprHasher (str : Bytes) : UInt64 :=
  let hash := hashChunks (seed ^^^ (str.length.toUInt64 * mul)) str
  let hash := shiftMix hash * mul
  shiftMix hash

namespace UnsafeConstexprHasher

/-- ORing in bits the accumulator already has changes nothing, at every step of a fold. -/
theorem foldl_or_absorb {ι : Type} (a b : ι → UInt64) :
    ∀ (l : List ι) (r : UInt64), (∀ i ∈ l, r ||| b i = r) →
      l.foldl (fun r i => r ||| (a i ||| b i)) r = l.foldl (fun r i => r ||| a i) r := by
  intro l
  induction l with
  | nil => intro r _; rfl
  | cons i l ih =>
    intro r h
    have hi : r ||| (a i ||| b i) = r ||| a i := by
      rw [← UInt64.or_assoc, UInt64.or_comm r (a i), UInt64.or_assoc, h i List.mem_cons_self,
        UInt64.or_comm]
    simp only [List.foldl_cons, hi]
    -- the accumulator only grows, so it keeps the bits of the later `b`s
    refine ih _ fun j hj => ?_
    rw [UInt64.or_assoc, UInt64.or_comm (a i), ← UInt64.or_assoc, h j (List.mem_cons_of_mem i hj)]

/-- The mask `LoadN` starts from has bit `0x20` of each of the `n` bytes it loads. -/
theorem mask_has_bit (n : Nat) (hn : n ≤ 8) :
    ∀ i < n, (kDeliberatelyBrokenLowercaseMask >>> (8 * (8 - n)).toUInt64) |||
      ((0x20 : UInt64) <<< (8 * i).toUInt64) =
        kDeliberatelyBrokenLowercaseMask >>> (8 * (8 - n)).toUInt64 := by
  have h : ∀ n < 9, ∀ i < n, (kDeliberatelyBrokenLowercaseMask >>> (8 * (8 - n)).toUInt64) |||
      ((0x20 : UInt64) <<< (8 * i).toUInt64) =
        kDeliberatelyBrokenLowercaseMask >>> (8 * (8 - n)).toUInt64 := by
    decide
  exact h n (by omega)

theorem getD_foldBytes {data : Bytes} {i : Nat} (hi : i < data.length) :
    (foldBytes data).getD i 0 = foldByte (data.getD i 0) := by
  simp [foldBytes, List.getD_eq_getElem?_getD, hi]

/-- `LoadN` reads its bytes through `foldByte`. -/
theorem loadN_foldBytes {data : Bytes} {n : Nat} (hn : n ≤ 8) (hlen : n ≤ data.length) :
    loadN (foldBytes data) n = loadN data n := by
  unfold loadN
  have hstep : ∀ i ∈ List.range n,
      ((foldBytes data).getD i 0).toUInt64 <<< (8 * i).toUInt64 =
        ((data.getD i 0).toUInt64 <<< (8 * i).toUInt64) |||
          ((0x20 : UInt64) <<< (8 * i).toUInt64) := by
    intro i hi
    rw [getD_foldBytes (by simp at hi; omega), foldByte, UInt8.toUInt64_or, UInt64.shiftLeft_or]
    rfl
  rw [List.foldl_ext _ _ _ (fun r i hi => by rw [hstep i hi])]
  exact foldl_or_absorb _ _ _ _ fun i hi => mask_has_bit n hn i (by simpa using hi)

theorem length_foldBytes (s : Bytes) : (foldBytes s).length = s.length := by
  simp [foldBytes]

/-- The tail of fewer than 8 bytes is read through `foldByte`. -/
theorem tailHash_foldBytes (hash : UInt64) (tail : Bytes) (hlen : tail.length ≤ 8) :
    (hash ^^^ loadN (foldBytes tail) tail.length) * mul = (hash ^^^ loadN tail tail.length) * mul := by
  rw [loadN_foldBytes hlen le_rfl]

/-- The block loop reads the string through `foldByte`. -/
theorem hashChunks_foldBytes (hash : UInt64) :
    ∀ s : Bytes, hashChunks hash (foldBytes s) = hashChunks hash s
  | b0 :: b1 :: b2 :: b3 :: b4 :: b5 :: b6 :: b7 :: rest => by
    have hblock : load8 [foldByte b0, foldByte b1, foldByte b2, foldByte b3, foldByte b4,
        foldByte b5, foldByte b6, foldByte b7] = load8 [b0, b1, b2, b3, b4, b5, b6, b7] :=
      @loadN_foldBytes [b0, b1, b2, b3, b4, b5, b6, b7] 8 (by omega) (by simp)
    simp only [foldBytes, List.map_cons]
    rw [hashChunks, hashChunks, hblock]
    exact hashChunks_foldBytes _ rest
  | [] => rfl
  | [b0] => tailHash_foldBytes hash [b0] (by simp)
  | [b0, b1] => tailHash_foldBytes hash [b0, b1] (by simp)
  | [b0, b1, b2] => tailHash_foldBytes hash [b0, b1, b2] (by simp)
  | [b0, b1, b2, b3] => tailHash_foldBytes hash [b0, b1, b2, b3] (by simp)
  | [b0, b1, b2, b3, b4] => tailHash_foldBytes hash [b0, b1, b2, b3, b4] (by simp)
  | [b0, b1, b2, b3, b4, b5] => tailHash_foldBytes hash [b0, b1, b2, b3, b4, b5] (by simp)
  | [b0, b1, b2, b3, b4, b5, b6] =>
    tailHash_foldBytes hash [b0, b1, b2, b3, b4, b5, b6] (by simp)

end UnsafeConstexprHasher

open UnsafeConstexprHasher in
/-- The unsafe hash reads every byte with bit `0x20` set: strings that agree so hash alike. -/
theorem unsafeConstexprHasher_eq_of_foldBytes {s t : Bytes} (h : foldBytes s = foldBytes t) :
    unsafeConstexprHasher s = unsafeConstexprHasher t := by
  have hlen : s.length = t.length := by rw [← length_foldBytes s, h, length_foldBytes]
  unfold unsafeConstexprHasher
  rw [hlen, ← hashChunks_foldBytes _ s, h, hashChunks_foldBytes]

/-- Names equal up to case have one unsafe hash. -/
theorem unsafeConstexprHasher_eq_of_strIcaseEqual {s t : Bytes} (h : strIcaseEqual s t = true) :
    unsafeConstexprHasher s = unsafeConstexprHasher t := by
  apply unsafeConstexprHasher_eq_of_foldBytes
  have hmap := congrArg (List.map foldByte) (strIcaseEqual_iff.1 h)
  simpa [foldBytes, Function.comp_def, foldByte_toLowerAscii] using hmap

/-! ## Known headers and their indices -/

/-- `kKnownHeadersLowercaseMap`. -/
def kKnownHeadersLowercaseMap : List (Bytes × Int) :=
  [("content-type", 1), ("content-encoding", 2), ("content-length", 3),
    ("transfer-encoding", 4), ("host", 5), ("accept", 6), ("accept-encoding", 7),
    ("accept-language", 8), ("x-yataxi-api-key", 9), ("user-agent", 10),
    ("x-request-application", 11), ("date", 12), ("warning", 13),
    ("access-control-allow-headers", 14), ("allow", 15), ("server", 16), ("set-cookie", 17),
    ("connection", 18), ("cookie", 19), ("x-yarequestid", 20), ("x-yatraceid", 21),
    ("x-yaspanid", 22), ("x-requestid", 23), ("x-backend-server", 24),
    ("x-taxi-envoyproxy-dstvhost", 25), ("baggage", 26), ("x-yataxi-allow-auth-request", 27),
    ("x-yataxi-allow-auth-response", 28), ("x-yataxi-server-hostname", 29),
    ("x-yataxi-client-timeoutms", 30), ("x-yataxi-deadline-expired", 31),
    ("x-yataxi-ratelimited-by", 32), ("x-yataxi-ratelimit-reason", 33), ("x-b3-traceid", 34),
    ("x-b3-spanid", 35), ("x-b3-sampled", 36), ("x-b3-parentspanid", 37), ("traceparent", 38),
    ("tracestate", 39), ("http2-settings", 40), (":method", 41), (":path", 42)].map
    fun (name, index) => (bytesOf name, index)

/-- `impl::ICaseEqualLowercase` for one byte: the byte of the lower-case literal, or its upper
case when it is a letter. -/
def iCaseEqualLowercaseChar (lowercase c : UInt8) : Bool :=
  lowercase == c || ((97 ≤ lowercase ∧ lowercase ≤ 122 : Bool) && (lowercase &&& ~~~32) == c)

/-- `SwitchByFirstICase::Case`'s test: the same size and `ICaseEqualLowercase`. -/
def iCaseEqualLowercase (lowercase y : Bytes) : Bool :=
  y.length == lowercase.length &&
    (lowercase.zip y).all fun (l, c) => iCaseEqualLowercaseChar l c

/-- `TrivialBiMap::TryFindICaseByFirst` over the known headers: the first case that matches. -/
def tryFindICaseByFirst (key : Bytes) : Option Int :=
  (kKnownHeadersLowercaseMap.find? fun (name, _) => iCaseEqualLowercase name key).map (·.2)

/-- `kNoHeaderIndexLookup`. -/
def kNoHeaderIndexLookup : Int := -1

/-- `kNoHeaderIndexInsertion`. -/
def kNoHeaderIndexInsertion : Int := -2

/-- `GetHeaderIndexForLookup`. -/
def getHeaderIndexForLookup (key : Bytes) : Int :=
  (tryFindICaseByFirst key).getD kNoHeaderIndexLookup

/-- `GetHeaderIndexForInsertion`. -/
def getHeaderIndexForInsertion (key : Bytes) : Int :=
  (tryFindICaseByFirst key).getD kNoHeaderIndexInsertion

/-- The indices of the known headers are positive and distinct. -/
theorem kKnownHeadersLowercaseMap_wf :
    (∀ e ∈ kKnownHeadersLowercaseMap, 0 < e.2) ∧ (kKnownHeadersLowercaseMap.map (·.2)).Nodup := by
  decide

set_option maxRecDepth 4096 in
/-- Two bytes that `ICaseEqualLowercase` accepts for one byte of a literal are equal once
lowered. -/
theorem toLowerAscii_eq_of_iCaseEqualLowercaseChar {l c c' : UInt8}
    (h : iCaseEqualLowercaseChar l c = true) (h' : iCaseEqualLowercaseChar l c' = true) :
    toLowerAscii c = toLowerAscii c' := by
  -- a lower-case letter with bit `0x20` cleared is its upper case, which lowers back to it
  have hletters : ∀ n < 256, 97 ≤ n ∧ n ≤ 122 →
      toLowerAscii (UInt8.ofNat n &&& ~~~32) = UInt8.ofNat n ∧ toLowerAscii (UInt8.ofNat n) =
        UInt8.ofNat n := by
    decide
  have hupper : ∀ {x : UInt8}, 97 ≤ x ∧ x ≤ 122 →
      toLowerAscii (x &&& ~~~32) = x ∧ toLowerAscii x = x := by
    intro x hx
    have := hletters x.toNat x.toNat_lt (by simpa [UInt8.le_iff_toNat_le] using hx)
    rwa [UInt8.ofNat_toNat] at this
  simp only [iCaseEqualLowercaseChar, Bool.or_eq_true, beq_iff_eq, Bool.and_eq_true,
    decide_eq_true_eq] at h h'
  rcases h with rfl | ⟨hl, rfl⟩ <;> rcases h' with rfl | ⟨hl', rfl⟩
  · rfl
  · rw [(hupper hl').1, (hupper hl').2]
  · rw [(hupper hl).1, (hupper hl).2]
  · rfl

/-- Two names that `ICaseEqualLowercase` accepts for one literal are equal up to case. -/
theorem strIcaseEqual_of_iCaseEqualLowercase {lowercase a b : Bytes}
    (ha : iCaseEqualLowercase lowercase a = true) (hb : iCaseEqualLowercase lowercase b = true) :
    strIcaseEqual a b = true := by
  rw [strIcaseEqual_iff]
  induction lowercase generalizing a b with
  | nil =>
    cases a <;> cases b <;> simp_all [iCaseEqualLowercase]
  | cons l lowercase ih =>
    cases a with
    | nil => simp [iCaseEqualLowercase] at ha
    | cons c a =>
      cases b with
      | nil => simp [iCaseEqualLowercase] at hb
      | cons c' b =>
        simp only [iCaseEqualLowercase, List.length_cons, List.zip_cons_cons, List.all_cons,
          Bool.and_eq_true, beq_iff_eq, Nat.add_right_cancel_iff] at ha hb
        obtain ⟨hlen, hc, hrest⟩ := ha
        obtain ⟨hlen', hc', hrest'⟩ := hb
        have hta : iCaseEqualLowercase lowercase a = true := by
          simp [iCaseEqualLowercase, hlen, hrest]
        have htb : iCaseEqualLowercase lowercase b = true := by
          simp [iCaseEqualLowercase, hlen', hrest']
        rw [List.map_cons, List.map_cons, toLowerAscii_eq_of_iCaseEqualLowercaseChar hc hc',
          ih hta htb]

theorem exists_of_tryFindICaseByFirst {key : Bytes} {index : Int}
    (h : tryFindICaseByFirst key = some index) :
    ∃ name, (name, index) ∈ kKnownHeadersLowercaseMap ∧ iCaseEqualLowercase name key = true := by
  obtain ⟨e, he, rfl⟩ := Option.map_eq_some_iff.1 h
  have hmatch := List.find?_some he
  exact ⟨e.1, List.mem_of_find?_eq_some he, by simpa using hmatch⟩

/-- Two names that the index lookup sends to one known header are equal up to case. -/
theorem strIcaseEqual_of_tryFindICaseByFirst {a b : Bytes} {index : Int}
    (ha : tryFindICaseByFirst a = some index) (hb : tryFindICaseByFirst b = some index) :
    strIcaseEqual a b = true := by
  obtain ⟨na, hna, hma⟩ := exists_of_tryFindICaseByFirst ha
  obtain ⟨nb, hnb, hmb⟩ := exists_of_tryFindICaseByFirst hb
  -- the indices are distinct, so both names matched the same literal
  have hname : na = nb :=
    (Prod.mk.inj (List.inj_on_of_nodup_map kKnownHeadersLowercaseMap_wf.2 hna hnb rfl)).1
  subst hname
  exact strIcaseEqual_of_iCaseEqualLowercase hma hmb

theorem tryFindICaseByFirst_pos {key : Bytes} {index : Int}
    (h : tryFindICaseByFirst key = some index) : 0 < index := by
  obtain ⟨name, hmem, -⟩ := exists_of_tryFindICaseByFirst h
  exact kKnownHeadersLowercaseMap_wf.1 _ hmem

/-- A stored header index is never `0`, the index a plain name is looked up with. -/
theorem getHeaderIndexForInsertion_ne_zero (key : Bytes) : getHeaderIndexForInsertion key ≠ 0 := by
  unfold getHeaderIndexForInsertion
  cases h : tryFindICaseByFirst key with
  | none => simp [kNoHeaderIndexInsertion]
  | some index => simpa using (tryFindICaseByFirst_pos h).ne'

/-- The index of a `PredefinedHeader` equals the index stored for a name only when the two
names are equal up to case. -/
theorem strIcaseEqual_of_headerIndex_eq {a b : Bytes}
    (h : getHeaderIndexForLookup a = getHeaderIndexForInsertion b) : strIcaseEqual a b = true := by
  unfold getHeaderIndexForLookup getHeaderIndexForInsertion at h
  cases ha : tryFindICaseByFirst a with
  | none =>
    rw [ha] at h
    cases hb : tryFindICaseByFirst b with
    | none => simp [hb, kNoHeaderIndexLookup, kNoHeaderIndexInsertion] at h
    | some index =>
      have := tryFindICaseByFirst_pos hb
      simp [hb, kNoHeaderIndexLookup] at h
      omega
  | some index =>
    rw [ha] at h
    cases hb : tryFindICaseByFirst b with
    | none =>
      have := tryFindICaseByFirst_pos ha
      simp [hb, kNoHeaderIndexInsertion] at h
      omega
    | some index' =>
      simp only [hb, Option.getD_some] at h
      subst h
      exact strIcaseEqual_of_tryFindICaseByFirst ha hb

/-! ## Predefined headers -/

/-- `PredefinedHeader`: a name with the hash and the index its constructor computes. -/
structure PredefinedHeader where
  name : Bytes
  hash : UInt64
  headerIndex : Int
  hash_eq : hash = unsafeConstexprHasher name
  headerIndex_eq : headerIndex = getHeaderIndexForLookup name

/-- The `constexpr` constructor of `PredefinedHeader`. -/
def PredefinedHeader.make (name : Bytes) : PredefinedHeader :=
  ⟨name, unsafeConstexprHasher name, getHeaderIndexForLookup name, rfl, rfl⟩

/-! ## The danger state -/

/-- `Danger::State`. -/
inductive DangerState where
  | kGreen
  | kYellow
  | kRed
  deriving DecidableEq, Repr

/-- `header_map::Danger`: its state and the SipHash seed drawn when it turned red. -/
structure Danger where
  state : DangerState
  k0 : UInt64
  k1 : UInt64
  deriving DecidableEq, Repr

namespace Danger

/-- A default-constructed `Danger`. -/
def default : Danger := ⟨.kGreen, 0, 0⟩

def isYellow (danger : Danger) : Bool := danger.state = .kYellow

def isRed (danger : Danger) : Bool := danger.state = .kRed

/-- `ToGreen`. -/
def toGreen (danger : Danger) : Danger := { danger with state := .kGreen }

/-- `ToYellow`: only from green. -/
def toYellow (danger : Danger) : Danger :=
  if danger.state = .kGreen then { danger with state := .kYellow } else danger

/-- `ToRed`, with the two random values it draws. -/
def toRed (danger : Danger) (seed : UInt64 × UInt64) : Danger :=
  { danger with state := .kRed, k0 := seed.1, k1 := seed.2 }

section Hashing

variable (sipHash : UInt64 → UInt64 → Bytes → UInt64)

/-- `SafeHash`: the case-insensitive SipHash under the drawn seed. -/
def safeHash (danger : Danger) (key : Bytes) : UInt64 := sipHash danger.k0 danger.k1 key

/-- `HashKey(std::string_view)`. -/
def hashKey (danger : Danger) (key : Bytes) : UInt64 :=
  if !danger.isRed then unsafeConstexprHasher key else danger.safeHash sipHash key

/-- `HashKey(const PredefinedHeader&)`: the hash computed at compile time unless red. -/
def hashKeyHeader (danger : Danger) (header : PredefinedHeader) : UInt64 :=
  if !danger.isRed then header.hash else danger.safeHash sipHash header.name

/-- Outside the red state the hash does not depend on the state. -/
theorem hashKey_of_not_isRed {danger danger' : Danger} (h : danger.isRed = false)
    (h' : danger'.isRed = false) : danger.hashKey sipHash = danger'.hashKey sipHash := by
  funext key
  simp [hashKey, h, h']

end Hashing

end Danger

end Headers

end Http

end Userver
