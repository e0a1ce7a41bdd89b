import Userver.Lib.Lanes
import Userver.Lib.Loop
import Userver.Http.HeaderMap.Hash
import Userver.Lib.CType

/-!
# SipHash and case-insensitive comparison

`byte_utils.cpp` hashes strings with SipHash-1-3 (`SipHash13`) and compares them without case
(`NoCaseEqual`).  Both read the string through a `Fetcher`, a word or two at a time: `CaseFetcher`
reads the bytes as they are, `CaseInsensitiveFetcher` lowers the ASCII letters a byte at a time
first, and `CaseInsensitiveSSEFetcher` lowers sixteen lanes at once with signed byte comparisons.
`CaseInsensitiveSipHasher` and `CaseInsensitiveEqual` take the SSE fetcher where `__SSE2__` is
defined and the byte-wise one otherwise; the model takes that choice as the flag `sse2`.

A string is the list of its bytes, and a pointer into one is the list of the bytes from it on.

* `caseInsensitiveEqual_iff`: with either fetcher, `CaseInsensitiveEqual` holds exactly when the
  strings are equal after the letters 'A'..'Z' are lowered (`Headers.toLowerAscii`): the 16- and
  8-byte chunks and the overlapping 8-byte suffix cover the whole string.
* `sipHash13_congr`: a fetcher whose every read depends only on the lowered bytes makes
  `SipHash13` depend only on them; both case-insensitive fetchers are such
  (`caseInsensitiveFetcher_readsLowered`, `caseInsensitiveSseFetcher_readsLowered`).
-/

namespace Userver

namespace Utils

namespace Impl

open Lanes Http.Headers CType

/-! ## SipHash-1-3 -/

/-- `RotateLeft(x, b)`. -/
def rotateLeft (x b : UInt64) : UInt64 := (x <<< b) ||| (x >>> (64 - b))

/-- The reads `SipHash13` makes through its `Fetcher`, given the bytes from the pointer on. -/
structure Fetcher where
  fetch8 : List UInt8 → UInt64
  fetch16 : List UInt8 → UInt64 × UInt64
  fetchN : List UInt8 → Nat → UInt64

/-- `v0`, `v1`, `v2`, `v3`. -/
structure SipState where
  v0 : UInt64
  v1 : UInt64
  v2 : UInt64
  v3 : UInt64
  deriving DecidableEq, Repr

namespace SipState

/-- The state after `k0 ^ 0x736f6d6570736575` and the other three initializations. -/
def init (k0 k1 : UInt64) : SipState :=
  ⟨k0 ^^^ 0x736f6d6570736575, k1 ^^^ 0x646f72616e646f6d, k0 ^^^ 0x6c7967656e657261,
    k1 ^^^ 0x7465646279746573⟩

/-- `sip_round`. -/
def sipRound (v : SipState) : SipState :=
  let v0 := v.v0 + v.v1
  let v1 := rotateLeft v.v1 13
  let v1 := v1 ^^^ v0
  let v0 := rotateLeft v0 32
  let v2 := v.v2 + v.v3
  let v3 := rotateLeft v.v3 16
  let v3 := v3 ^^^ v2
  let v0 := v0 + v3
  let v3 := rotateLeft v3 21
  let v3 := v3 ^^^ v0
  let v2 := v2 + v1
  let v1 := rotateLeft v1 17
  let v1 := v1 ^^^ v2
  let v2 := rotateLeft v2 32
  ⟨v0, v1, v2, v3⟩

/-- `data_round(m)`. -/
def dataRound (v : SipState) (m : UInt64) : SipState :=
  let v := sipRound { v with v3 := v.v3 ^^^ m }
  { v with v0 := v.v0 ^^^ m }

/-- `finalize()`. -/
def finalize (v : SipState) : SipState :=
  sipRound (sipRound (sipRound { v with v2 := v.v2 ^^^ 0xff }))

/-- `v0 ^ v1 ^ v2 ^ v3`. -/
def digest (v : SipState) : UInt64 := v.v0 ^^^ v.v1 ^^^ v.v2 ^^^ v.v3

end SipState

open SipState

/-- One iteration of `while (data.size() >= 16)`: two data rounds of the words `Fetch16` reads. -/
def sixteenStep (F : Fetcher) (s : SipState × List UInt8) :
    (SipState × List UInt8) ⊕ (SipState × List UInt8) :=
  if 16 ≤ s.2.length then
    let (m1, m2) := F.fetch16 s.2
    .inr (dataRound (dataRound s.1 m1) m2, s.2.drop 16)
  else .inl s

/-- The data rounds of a string of at least eight bytes: the loop over sixteen bytes at a time,
then eight bytes if that many are left; the state and the fewer than eight bytes left. -/
def wordRounds (F : Fetcher) (v : SipState) (data : List UInt8) : SipState × List UInt8 :=
  let s := Loop.run (sixteenStep F) id (data.length + 1) (v, data)
  if 8 ≤ s.2.length then (dataRound s.1 (F.fetch8 s.2), s.2.drop 8) else s

/-- The last word `b` of a string of at least eight bytes, given the bytes `data` left after
`wordRounds`: the word of the last eight bytes shifted right by the `overtake` bytes already
read, ORed into the length. -/
def leftoverWord (F : Fetcher) (originalData data : List UInt8) (b : UInt64) : UInt64 :=
  if data.isEmpty then b
  else
    let overtake := 8 - (originalData.length &&& 7)
    b ||| F.fetch8 (originalData.drop (originalData.length - 8)) >>> (overtake * 8).toUInt64

/-- `SipHash13<Fetcher>(k0, k1, data)`: a string of fewer than eight bytes is read by `FetchN`,
a longer one by `wordRounds` and `leftoverWord`. -/
def sipHash13 (F : Fetcher) (k0 k1 : UInt64) (data : List UInt8) : UInt64 :=
  let v := init k0 k1
  let b : UInt64 := data.length.toUInt64 <<< 56
  if data.length < 8 then digest (finalize (dataRound v (b ||| F.fetchN data data.length)))
  else
    let s := wordRounds F v data
    digest (finalize (dataRound s.1 (leftoverWord F data s.2 b)))

/-! ## The fetchers -/

/-- `CaseFetcher::FetchN(data, n)`: `case n` ORs in byte `n - 1` and falls through to
`case n - 1`. -/
def caseFetchN (data : List UInt8) : Nat → UInt64
  | 0 => 0
  | n + 1 => (data.getD n 0).toUInt64 <<< (8 * n).toUInt64 ||| caseFetchN data n

/-- `CaseFetcher`: `Fetch8` is a `memcpy` of eight bytes into a `uint64_t`. -/
def caseFetcher : Fetcher where
  fetch8 data := loadWord (data.take 8)
  fetch16 data := (loadWord (data.take 8), loadWord ((data.drop 8).take 8))
  fetchN := caseFetchN

/-- The byte `Lowercase` writes for `c`: bit `32` set on 'A'..'Z'. -/
def lowercaseByte (c : UInt8) : UInt8 := c ||| (if 65 ≤ c ∧ c ≤ 90 then 32 else 0)

/-- `Lowercase(dst, src, len)` into a zero-initialized array of `size` bytes. -/
def lowercase (size : Nat) (src : List UInt8) (len : Nat) : List UInt8 :=
  (src.take len).map lowercaseByte ++ List.replicate (size - len) 0

/-- `CaseInsensitiveFetcher`: lowers into an array, then reads it with `CaseFetcher`. -/
def caseInsensitiveFetcher : Fetcher where
  fetch8 data := caseFetcher.fetch8 (lowercase 8 data 8)
  fetch16 data := caseFetcher.fetch16 (lowercase 16 data 16)
  fetchN data n := caseFetcher.fetchN (lowercase 8 data n) n

/-- A lane of `DoLowercaseBytes`: `mask_az` is `0xff` where the lane, compared as a signed byte,
is below 'A' or above 'Z', and the lane gets `32` where the mask is clear. -/
def sseLowercaseLane (c : UInt8) : UInt8 :=
  let maskAz : UInt8 := if c.toInt8 < 65 || c.toInt8 > 90 then 0xff else 0
  c ||| (~~~maskAz &&& 32)

/-- `LowercaseBytes`: the sixteen lanes lowered, as the two words `memcpy` reads of them. -/
def lowercaseBytes (lanes : List UInt8) : UInt64 × UInt64 :=
  let lowercase := lanes.map sseLowercaseLane
  (loadWord (lowercase.take 8), loadWord ((lowercase.drop 8).take 8))

/-- `Load8`: `_mm_loadu_si64`, eight bytes in the low lanes and zeros above. -/
def load8 (data : List UInt8) : List UInt8 := data.take 8 ++ List.replicate 8 0

/-- `Load16`. -/
def load16 (data : List UInt8) : List UInt8 := data.take 16

/-- `CaseInsensitiveSSEFetcher`.  `FetchN` reads the bytes with `CaseFetcher::FetchN` and lowers
the lanes of that word (`_mm_loadl_epi64`). -/
def caseInsensitiveSseFetcher : Fetcher where
  fetch8 data := (lowercaseBytes (load8 data)).1
  fetch16 data := lowercaseBytes (load16 data)
  fetchN data n := (lowercaseBytes (storeWord (caseFetchN data n) ++ List.replicate 8 0)).1

/-- `SipHasher::operator()`. -/
def sipHasher (k0 k1 : UInt64) (data : List UInt8) : UInt64 := sipHash13 caseFetcher k0 k1 data

/-- `CaseInsensitiveSipHasherNoSse::operator()`. -/
def caseInsensitiveSipHasherNoSse (k0 k1 : UInt64) (data : List UInt8) : UInt64 :=
  sipHash13 caseInsensitiveFetcher k0 k1 data

/-- `CaseInsensitiveSipHasher::operator()`: the SSE fetcher where `__SSE2__` is defined. -/
def caseInsensitiveSipHasher (sse2 : Bool) (k0 k1 : UInt64) (data : List UInt8) : UInt64 :=
  if sse2 then sipHash13 caseInsensitiveSseFetcher k0 k1 data
  else caseInsensitiveSipHasherNoSse k0 k1 data

/-! ## Case-insensitive comparison -/

/-- The comparisons `NoCaseEqual` makes through its `Fetcher`, given the bytes from each pointer
on. -/
structure Comparer where
  failFastCompare8 : List UInt8 → List UInt8 → Bool
  failFastCompare16 : List UInt8 → List UInt8 → Bool

/-- `CaseInsensitiveFetcher::FailFastCompare8` and `FailFastCompare16`: the words read equal. -/
def caseInsensitiveComparer : Comparer where
  failFastCompare8 lhs rhs := caseInsensitiveFetcher.fetch8 lhs == caseInsensitiveFetcher.fetch8 rhs
  failFastCompare16 lhs rhs :=
    caseInsensitiveFetcher.fetch16 lhs == caseInsensitiveFetcher.fetch16 rhs

/-- `is_zero_vector`: the two words of the sixteen lanes OR to zero. -/
def isZeroVector (lanes : List UInt8) : Bool :=
  (loadWord (lanes.take 8) ||| loadWord ((lanes.drop 8).take 8)) == 0

/-- `CaseInsensitiveSSEFetcher::FailFastCompare(lhs, rhs)`: lanes that differ in a bit other
than `32` fail at once; otherwise the lowered lanes are compared. -/
def sseFailFastCompare (lhs rhs : List UInt8) : Bool :=
  let diff := List.zipWith (· ^^^ ·) lhs rhs
  let notLowerUpperDiffMask := diff.map (· &&& ~~~32)
  if !isZeroVector notLowerUpperDiffMask then false
  else
    let lowercaseDiff :=
      List.zipWith (· ^^^ ·) (lhs.map sseLowercaseLane) (rhs.map sseLowercaseLane)
    isZeroVector lowercaseDiff

/-- `CaseInsensitiveSSEFetcher::FailFastCompare8` and `FailFastCompare16`. -/
def caseInsensitiveSseComparer : Comparer where
  failFastCompare8 lhs rhs := sseFailFastCompare (load8 lhs) (load8 rhs)
  failFastCompare16 lhs rhs := sseFailFastCompare (load16 lhs) (load16 rhs)

/-- A byte as `CompareNaive` lowers it. -/
def naiveLower (a : UInt8) : UInt8 := if 65 ≤ a ∧ a ≤ 90 then a ||| 32 else a

/-- `CompareNaive(lhs, rhs)`, for strings of one length: each pair of bytes is equal, or equal
once lowered. -/
def compareNaive (lhs rhs : List UInt8) : Bool :=
  (List.zip lhs rhs).all fun (a, b) => a == b || naiveLower a == naiveLower b

/-- One iteration of `while (lhs.size() >= 16)`: `CompareAndAdvance<Fetcher, 16>`, returning
`false` when the chunks differ. -/
def compareStep (C : Comparer) (s : List UInt8 × List UInt8) :
    Option (List UInt8 × List UInt8) ⊕ (List UInt8 × List UInt8) :=
  if 16 ≤ s.1.length then
    if C.failFastCompare16 s.1 s.2 then .inr (s.1.drop 16, s.2.drop 16) else .inl none
  else .inl (some s)

/-- The end of `NoCaseEqual` once the sixteen-byte loop has stopped at `lhs`, `rhs`: eight more
bytes if that many are left, then the last eight bytes of the strings if anything is left. -/
def compareTail (C : Comparer) (lhsSuffix rhsSuffix lhs rhs : List UInt8) : Bool :=
  if 8 ≤ lhs.length && !C.failFastCompare8 lhs rhs then false
  else
    let lhs := if 8 ≤ lhs.length then lhs.drop 8 else lhs
    lhs.isEmpty || C.failFastCompare8 lhsSuffix rhsSuffix

/-- `NoCaseEqual<Fetcher>(lhs, rhs)`: strings of one length, compared naively below eight bytes;
longer ones sixteen bytes at a time, then by `compareTail`. -/
def noCaseEqual (C : Comparer) (lhs rhs : List UInt8) : Bool :=
  if lhs.length ≠ rhs.length then false
  else if lhs.length < 8 then compareNaive lhs rhs
  else
    let lhsSuffix := lhs.drop (lhs.length - 8)
    let rhsSuffix := rhs.drop (rhs.length - 8)
    match Loop.run (compareStep C) some (lhs.length + 1) (lhs, rhs) with
    | none => false
    | some (lhs, rhs) => compareTail C lhsSuffix rhsSuffix lhs rhs

/-- `CaseInsensitiveEqualNoSse::operator()`. -/
def caseInsensitiveEqualNoSse (lhs rhs : List UInt8) : Bool :=
  noCaseEqual caseInsensitiveComparer lhs rhs

/-- `CaseInsensitiveEqual::operator()`: the SSE fetcher where `__SSE2__` is defined. -/
def caseInsensitiveEqual (sse2 : Bool) (lhs rhs : List UInt8) : Bool :=
  if sse2 then noCaseEqual caseInsensitiveSseComparer lhs rhs else caseInsensitiveEqualNoSse lhs rhs

/-! ## What the fetchers read -/

set_option maxRecDepth 4096 in
theorem lowercaseByte_eq : lowercaseByte = toLowerAscii := by
  funext c
  have h : ∀ c : UInt8, lowercaseByte c = toLowerAscii c := by decide
  exact h c

set_option maxRecDepth 4096 in
/-- The signed comparisons of `DoLowercaseBytes` lower exactly 'A'..'Z': no byte from `0x80`,
negative as a signed byte, falls between 'A' and 'Z'. -/
theorem sseLowercaseLane_eq : sseLowercaseLane = toLowerAscii := by
  funext c
  have h : ∀ c : UInt8, sseLowercaseLane c = toLowerAscii c := by decide
  exact h c

theorem naiveLower_eq : naiveLower = toLowerAscii := rfl

@[simp] theorem toLowerAscii_zero : toLowerAscii 0 = 0 := by decide

theorem lowercase_eq (size : Nat) (src : List UInt8) (len : Nat) :
    lowercase size src len = (src.map toLowerAscii).take len ++ List.replicate (size - len) 0 := by
  rw [lowercase, lowercaseByte_eq, List.map_take]

/-- `CaseFetcher::FetchN` of at most eight bytes is their little-endian word. -/
theorem caseFetchN_eq (data : List UInt8) : ∀ n ≤ 8, caseFetchN data n = loadWord (data.take n)
  | 0, _ => rfl
  | n + 1, hn => by
    rw [caseFetchN, caseFetchN_eq data n (by omega)]
    rcases Nat.lt_or_ge n data.length with hlt | hge
    · -- byte `n` is there: it is ORed in above the first `n`
      have hlen : (data.take n).length = n := List.length_take_of_le hlt.le
      rw [List.take_add_one, List.getElem?_eq_getElem hlt, Option.toList_some,
        List.getD_eq_getElem?_getD, List.getElem?_eq_getElem hlt, Option.getD_some,
        ← loadWord_concat (by omega), hlen]
    · -- past the end `getD` reads zero
      have hall : data.take (n + 1) = data := List.take_of_length_le (by omega)
      rw [List.getD_eq_default _ _ hge, hall, List.take_of_length_le hge]
      simp

/-- Every read of the fetcher depends only on the bytes with 'A'..'Z' lowered. -/
def Fetcher.ReadsLowered (F : Fetcher) : Prop :=
  ∀ d d' : List UInt8, d.map toLowerAscii = d'.map toLowerAscii →
    F.fetch8 d = F.fetch8 d' ∧ F.fetch16 d = F.fetch16 d' ∧ ∀ n < 8, F.fetchN d n = F.fetchN d' n

theorem caseInsensitiveFetcher_readsLowered : caseInsensitiveFetcher.ReadsLowered := by
  intro d d' h
  simp [caseInsensitiveFetcher, lowercase_eq, h]

theorem lowercaseBytes_eq (lanes : List UInt8) :
    lowercaseBytes lanes =
      (loadWord ((lanes.map toLowerAscii).take 8),
        loadWord (((lanes.map toLowerAscii).drop 8).take 8)) := by
  rw [lowercaseBytes, sseLowercaseLane_eq]

theorem caseInsensitiveSseFetcher_readsLowered : caseInsensitiveSseFetcher.ReadsLowered := by
  intro d d' h
  have hlen : d.length = d'.length := by rw [← List.length_map toLowerAscii, h, List.length_map]
  refine ⟨?_, ?_, fun n hn => ?_⟩
  · simp only [caseInsensitiveSseFetcher, lowercaseBytes_eq, load8, List.map_append, List.map_take, h]
  · simp only [caseInsensitiveSseFetcher, lowercaseBytes_eq, load16, List.map_take, h]
  · -- the word `FetchN` reads holds the bytes themselves, which are lowered as lanes
    have hbytes : ∀ e : List UInt8, storeWord (caseFetchN e n) =
        e.take n ++ List.replicate (8 - (e.take n).length) 0 := fun e => by
      rw [caseFetchN_eq e n hn.le, storeWord_loadWord (by simp; omega)]
    have hlen' : (d.take n).length = (d'.take n).length := by simp [hlen]
    simp only [caseInsensitiveSseFetcher, lowercaseBytes_eq, hbytes, List.map_append, List.map_take,
      h, hlen']

/-! ## `SipHash13` depends only on what its fetcher reads -/

section Congr

variable {F : Fetcher}

/-- Two states of the hash with one `v` and strings equal once lowered. -/
def Lowered (s t : SipState × List UInt8) : Prop :=
  s.1 = t.1 ∧ s.2.map toLowerAscii = t.2.map toLowerAscii

theorem length_eq_of_lowered {d d' : List UInt8} (h : d.map toLowerAscii = d'.map toLowerAscii) :
    d.length = d'.length := by
  rw [← List.length_map toLowerAscii, h, List.length_map]

theorem lowered_drop {d d' : List UInt8} (h : d.map toLowerAscii = d'.map toLowerAscii) (k : Nat) :
    (d.drop k).map toLowerAscii = (d'.drop k).map toLowerAscii := by
  rw [List.map_drop, h, ← List.map_drop]

theorem sixteenStep_lowered (hF : F.ReadsLowered) {s t : SipState × List UInt8}
    (h : Lowered s t) :
    (∃ b b', sixteenStep F s = .inl b ∧ sixteenStep F t = .inl b' ∧ Lowered b b') ∨
      ∃ s' t', sixteenStep F s = .inr s' ∧ sixteenStep F t = .inr t' ∧ Lowered s' t' := by
  obtain ⟨hv, hd⟩ := h
  have hlen := length_eq_of_lowered hd
  unfold sixteenStep
  rw [hlen]
  split
  · right
    rw [hv, (hF _ _ hd).2.1]
    exact ⟨_, _, rfl, rfl, rfl, lowered_drop hd 16⟩
  · left
    exact ⟨_, _, rfl, rfl, hv, hd⟩

theorem wordRounds_lowered (hF : F.ReadsLowered) (v : SipState) {d d' : List UInt8}
    (h : d.map toLowerAscii = d'.map toLowerAscii) :
    Lowered (wordRounds F v d) (wordRounds F v d') := by
  -- the sixteen-byte loops run in lockstep
  have hloop : Lowered (Loop.run (sixteenStep F) id (d.length + 1) (v, d))
      (Loop.run (sixteenStep F) id (d'.length + 1) (v, d')) := by
    rw [← length_eq_of_lowered h]
    exact Loop.run_sim Lowered Lowered (fun _ _ hst => sixteenStep_lowered hF hst)
      (fun _ _ hst => hst) _ _ _ ⟨rfl, h⟩
  unfold wordRounds
  generalize Loop.run (sixteenStep F) id (d.length + 1) (v, d) = a at hloop ⊢
  generalize Loop.run (sixteenStep F) id (d'.length + 1) (v, d') = b at hloop ⊢
  obtain ⟨hv, hd⟩ := hloop
  dsimp only
  rw [length_eq_of_lowered hd]
  split
  · rw [hv, (hF _ _ hd).1]
    exact ⟨rfl, lowered_drop hd 8⟩
  · exact ⟨hv, hd⟩

theorem leftoverWord_congr (hF : F.ReadsLowered) {d d' r r' : List UInt8}
    (hd : d.map toLowerAscii = d'.map toLowerAscii) (hr : r.map toLowerAscii = r'.map toLowerAscii)
    (b : UInt64) : leftoverWord F d r b = leftoverWord F d' r' b := by
  have hempty : r.isEmpty = r'.isEmpty := by
    rw [Bool.eq_iff_iff, List.isEmpty_iff_length_eq_zero, List.isEmpty_iff_length_eq_zero,
      length_eq_of_lowered hr]
  have hlen := length_eq_of_lowered hd
  unfold leftoverWord
  rw [hempty, hlen, (hF _ _ (lowered_drop hd (d'.length - 8))).1]

/-- `SipHash13` with a fetcher that reads only the lowered bytes hashes strings equal once lowered
alike. -/
theorem sipHash13_congr (hF : F.ReadsLowered) (k0 k1 : UInt64) {s t : List UInt8}
    (h : s.map toLowerAscii = t.map toLowerAscii) : sipHash13 F k0 k1 s = sipHash13 F k0 k1 t := by
  have hlen := length_eq_of_lowered h
  unfold sipHash13
  rw [hlen]
  split
  · rw [(hF _ _ h).2.2 t.length (by omega)]
  · dsimp only
    obtain ⟨hv, hrest⟩ := wordRounds_lowered hF (init k0 k1) h
    rw [hv, leftoverWord_congr hF h hrest]

end Congr

/-! ## `NoCaseEqual` compares the lowered strings -/

section Compare

/-- Each comparison of the fetcher holds exactly when its chunks are equal once lowered. -/
def Comparer.Exact (C : Comparer) : Prop :=
  (∀ l r : List UInt8, 8 ≤ l.length → 8 ≤ r.length →
    (C.failFastCompare8 l r = true ↔ (l.take 8).map toLowerAscii = (r.take 8).map toLowerAscii)) ∧
  ∀ l r : List UInt8, 16 ≤ l.length → 16 ≤ r.length →
    (C.failFastCompare16 l r = true ↔ (l.take 16).map toLowerAscii = (r.take 16).map toLowerAscii)

/-- Equal once lowered, split anywhere. -/
theorem lowered_iff_take_drop {l r : List UInt8} (k : Nat) :
    l.map toLowerAscii = r.map toLowerAscii ↔
      (l.take k).map toLowerAscii = (r.take k).map toLowerAscii ∧
        (l.drop k).map toLowerAscii = (r.drop k).map toLowerAscii := by
  constructor
  · intro h
    exact ⟨by rw [List.map_take, h, ← List.map_take], lowered_drop h k⟩
  · rintro ⟨htake, hdrop⟩
    rw [← List.take_append_drop k l, ← List.take_append_drop k r, List.map_append, List.map_append,
      htake, hdrop]

/-- Strings that agree below `k` agree once lowered when they agree from any `j ≤ k` on. -/
theorem lowered_iff_drop_of_take {l r : List UInt8} {j k : Nat} (hjk : j ≤ k)
    (hpre : (l.take k).map toLowerAscii = (r.take k).map toLowerAscii) :
    l.map toLowerAscii = r.map toLowerAscii ↔
      (l.drop j).map toLowerAscii = (r.drop j).map toLowerAscii := by
  rw [lowered_iff_take_drop j, and_iff_right_iff_imp]
  intro _
  have h := (lowered_iff_take_drop j).1 hpre
  rw [List.take_take, List.take_take, Nat.min_eq_left hjk] at h
  exact h.1

theorem compareNaive_iff : ∀ {lhs rhs : List UInt8}, lhs.length = rhs.length →
    (compareNaive lhs rhs = true ↔ lhs.map toLowerAscii = rhs.map toLowerAscii)
  | [], [], _ => by simp [compareNaive]
  | a :: lhs, b :: rhs, h => by
    have ih := @compareNaive_iff lhs rhs (by simpa using h)
    have hbyte : (a == b || naiveLower a == naiveLower b) = true ↔ toLowerAscii a = toLowerAscii b := by
      rw [naiveLower_eq]
      constructor
      · intro hab
        rcases Bool.or_eq_true_iff.1 hab with hab | hab
        · rw [eq_of_beq hab]
        · exact eq_of_beq hab
      · intro hab
        simp [hab]
    simp only [compareNaive, List.zip_cons_cons, List.all_cons, Bool.and_eq_true, List.map_cons,
      List.cons.injEq] at ih ⊢
    rw [hbyte, ih]
  | [], _ :: _, h => by simp at h
  | _ :: _, [], h => by simp at h

/-- What the sixteen-byte loop of `NoCaseEqual` has found: that the strings differ once lowered,
or a cut below which they agree with fewer than sixteen bytes after it. -/
def ChunksChecked (lhs rhs : List UInt8) : Option (List UInt8 × List UInt8) → Prop
  | none => lhs.map toLowerAscii ≠ rhs.map toLowerAscii
  | some (l, r) => l.length < 16 ∧ ∃ k, l = lhs.drop k ∧ r = rhs.drop k ∧
      (lhs.take k).map toLowerAscii = (rhs.take k).map toLowerAscii

variable {C : Comparer}

/-- Each iteration of the loop keeps a cut below which the strings agree, or finds them
different. -/
theorem compareStep_spec (hC : C.Exact) {lhs rhs : List UInt8} (hlen : lhs.length = rhs.length)
    (s : List UInt8 × List UInt8)
    (hs : ∃ k, s.1 = lhs.drop k ∧ s.2 = rhs.drop k ∧
      (lhs.take k).map toLowerAscii = (rhs.take k).map toLowerAscii) :
    (∀ b, compareStep C s = .inl b → ChunksChecked lhs rhs b) ∧
      ∀ s', compareStep C s = .inr s' →
        (∃ k, s'.1 = lhs.drop k ∧ s'.2 = rhs.drop k ∧
          (lhs.take k).map toLowerAscii = (rhs.take k).map toLowerAscii) ∧
        s'.1.length < s.1.length := by
  obtain ⟨k, h1, h2, hpre⟩ := hs
  obtain ⟨l, r⟩ := s
  simp only at h1 h2
  subst h1 h2
  have hlen' : (lhs.drop k).length = (rhs.drop k).length := by simp [hlen]
  by_cases h16 : 16 ≤ (lhs.drop k).length
  · have hchunk := hC.2 (lhs.drop k) (rhs.drop k) h16 (by omega)
    by_cases hcmp : C.failFastCompare16 (lhs.drop k) (rhs.drop k) = true
    · -- the chunks agree: the cut moves sixteen bytes on
      have hstep : compareStep C (lhs.drop k, rhs.drop k) =
          .inr ((lhs.drop k).drop 16, (rhs.drop k).drop 16) := by
        simp only [compareStep, h16, hcmp, ↓reduceIte]
      rw [hstep]
      refine ⟨(fun _ h => nomatch h), fun s' h => ?_⟩
      cases h
      refine ⟨⟨k + 16, by simp [List.drop_drop], by simp [List.drop_drop], ?_⟩,
        by simp only [List.length_drop] at h16 ⊢; omega⟩
      rw [List.take_add, List.take_add, List.map_append, List.map_append, hpre, hchunk.1 hcmp]
    · -- the chunks differ, and so do the strings
      have hstep : compareStep C (lhs.drop k, rhs.drop k) = .inl none := by
        simp only [compareStep, h16, hcmp, ↓reduceIte, Bool.false_eq_true]
      rw [hstep]
      refine ⟨fun b h => ?_, (fun _ h => nomatch h)⟩
      cases h
      intro hall
      exact hcmp (hchunk.2 (by rw [List.map_take, List.map_take, lowered_drop hall k]))
  · have hstep : compareStep C (lhs.drop k, rhs.drop k) = .inl (some (lhs.drop k, rhs.drop k)) := by
      simp only [compareStep, h16, ↓reduceIte]
    rw [hstep]
    refine ⟨fun b h => ?_, (fun _ h => nomatch h)⟩
    cases h
    exact ⟨by omega, k, rfl, rfl, hpre⟩

theorem run_compareStep (hC : C.Exact) {lhs rhs : List UInt8} (hlen : lhs.length = rhs.length) :
    ChunksChecked lhs rhs (Loop.run (compareStep C) some (lhs.length + 1) (lhs, rhs)) :=
  Loop.run_invariant_of_lt
    (fun s => ∃ k, s.1 = lhs.drop k ∧ s.2 = rhs.drop k ∧
      (lhs.take k).map toLowerAscii = (rhs.take k).map toLowerAscii)
    (ChunksChecked lhs rhs) (fun s => s.1.length) (fun s hs => compareStep_spec hC hlen s hs)
    _ _ ⟨0, rfl, rfl, rfl⟩ (by simp)

/-- After the loop, with fewer than sixteen bytes left past a cut below which the strings agree,
`compareTail` decides whether they agree once lowered. -/
theorem compareTail_iff (hC : C.Exact) {lhs rhs : List UInt8} (hlen : lhs.length = rhs.length)
    (h8 : 8 ≤ lhs.length) {k : Nat} (hk : (lhs.drop k).length < 16)
    (hpre : (lhs.take k).map toLowerAscii = (rhs.take k).map toLowerAscii) :
    compareTail C (lhs.drop (lhs.length - 8)) (rhs.drop (rhs.length - 8)) (lhs.drop k) (rhs.drop k) =
        true ↔ lhs.map toLowerAscii = rhs.map toLowerAscii := by
  have hlen' : (lhs.drop k).length = (rhs.drop k).length := by simp [hlen]
  -- the last eight bytes: what the suffix comparison reads
  have hsuffix : C.failFastCompare8 (lhs.drop (lhs.length - 8)) (rhs.drop (rhs.length - 8)) = true ↔
      (lhs.drop (lhs.length - 8)).map toLowerAscii = (rhs.drop (lhs.length - 8)).map toLowerAscii := by
    rw [hC.1 _ _ (by simp; omega) (by simp; omega), hlen, List.take_of_length_le (by simp; omega),
      List.take_of_length_le (by simp; omega)]
  -- once fewer than eight bytes are left past a cut `j`, the suffix comparison decides
  have hrest : ∀ j, (lhs.take j).map toLowerAscii = (rhs.take j).map toLowerAscii →
      (lhs.drop j).length < 8 →
        (((lhs.drop j).isEmpty || C.failFastCompare8 (lhs.drop (lhs.length - 8))
          (rhs.drop (rhs.length - 8))) = true ↔ lhs.map toLowerAscii = rhs.map toLowerAscii) := by
    intro j hpre' hj
    have hjs : lhs.length - 8 ≤ j := by simp at hj; omega
    rw [Bool.or_eq_true, hsuffix, ← lowered_iff_drop_of_take hjs hpre']
    by_cases hempty : (lhs.drop j).isEmpty
    · -- nothing is left past the cut: the strings agree
      have hl : lhs.length ≤ j := by simpa using hempty
      rw [List.take_of_length_le hl, List.take_of_length_le (by omega)] at hpre'
      simp [hempty, hpre']
    · simp [hempty]
  unfold compareTail
  by_cases h8' : 8 ≤ (lhs.drop k).length
  · have hchunk := hC.1 (lhs.drop k) (rhs.drop k) h8' (by omega)
    by_cases hcmp : C.failFastCompare8 (lhs.drop k) (rhs.drop k) = true
    · -- eight more bytes agree: the cut moves on
      have hpre' : (lhs.take (k + 8)).map toLowerAscii = (rhs.take (k + 8)).map toLowerAscii := by
        rw [List.take_add, List.take_add, List.map_append, List.map_append, hpre, hchunk.1 hcmp]
      simp only [h8', hcmp, decide_true, Bool.not_true, Bool.and_false, Bool.false_eq_true,
        ↓reduceIte, List.drop_drop]
      exact hrest (k + 8) hpre' (by simp at hk ⊢; omega)
    · simp only [h8', hcmp, decide_true, Bool.not_false, Bool.and_self, ↓reduceIte,
        Bool.false_eq_true, false_iff]
      intro hall
      exact hcmp (hchunk.2 (by rw [List.map_take, List.map_take, lowered_drop hall k]))
  · simp only [h8', decide_false, Bool.false_and, Bool.false_eq_true, ↓reduceIte]
    exact hrest k hpre (by omega)

/-- `NoCaseEqual` with exact comparisons holds exactly when the strings are equal once lowered. -/
theorem noCaseEqual_iff (hC : C.Exact) (lhs rhs : List UInt8) :
    noCaseEqual C lhs rhs = true ↔ lhs.map toLowerAscii = rhs.map toLowerAscii := by
  unfold noCaseEqual
  by_cases hlen : lhs.length = rhs.length
  · rw [if_neg (not_not.2 hlen)]
    split
    · exact compareNaive_iff hlen
    · rename_i h8
      have hloop := run_compareStep hC hlen
      dsimp only
      split
      · rename_i hnone
        rw [hnone] at hloop
        simpa [ChunksChecked] using hloop
      · rename_i l r hsome
        rw [hsome] at hloop
        obtain ⟨hk, k, rfl, rfl, hpre⟩ := hloop
        exact compareTail_iff hC hlen (by omega) hk hpre
  · rw [if_pos hlen]
    simp only [Bool.false_eq_true, false_iff]
    exact fun h => hlen (length_eq_of_lowered h)

/-! ### The two fetchers compare exactly -/

theorem fetch8_caseInsensitive (e : List UInt8) :
    caseInsensitiveFetcher.fetch8 e = loadWord ((e.take 8).map toLowerAscii) := by
  simp only [caseInsensitiveFetcher, caseFetcher, lowercase_eq, Nat.sub_self, List.replicate_zero,
    List.append_nil, List.take_take, Nat.min_self, List.map_take]

theorem fetch16_caseInsensitive (e : List UInt8) :
    caseInsensitiveFetcher.fetch16 e =
      (loadWord (((e.take 16).map toLowerAscii).take 8),
        loadWord ((((e.take 16).map toLowerAscii).drop 8).take 8)) := by
  simp only [caseInsensitiveFetcher, caseFetcher, lowercase_eq, Nat.sub_self, List.replicate_zero,
    List.append_nil, List.map_take]

/-- Sixteen bytes are equal when the words of their two halves are. -/
theorem eq_iff_halves {x y : List UInt8} (hx : x.length = 16) (hy : y.length = 16) :
    (loadWord (x.take 8) = loadWord (y.take 8) ∧
        loadWord ((x.drop 8).take 8) = loadWord ((y.drop 8).take 8)) ↔ x = y := by
  have hxd : (x.drop 8).take 8 = x.drop 8 := List.take_of_length_le (by simp [hx])
  have hyd : (y.drop 8).take 8 = y.drop 8 := List.take_of_length_le (by simp [hy])
  rw [@loadWord_inj (x.take 8) (y.take 8) (by simp [hx]) (by simp [hy]), hxd, hyd,
    @loadWord_inj (x.drop 8) (y.drop 8) (by simp [hx]) (by simp [hy])]
  constructor
  · rintro ⟨htake, hdrop⟩
    rw [← List.take_append_drop 8 x, ← List.take_append_drop 8 y, htake, hdrop]
  · rintro rfl
    exact ⟨rfl, rfl⟩

theorem caseInsensitiveComparer_exact : caseInsensitiveComparer.Exact := by
  constructor
  · intro l r hl hr
    simp only [caseInsensitiveComparer, beq_iff_eq, fetch8_caseInsensitive l,
      fetch8_caseInsensitive r]
    exact loadWord_inj (by simp; omega) (by simp; omega)
  · intro l r hl hr
    simp only [caseInsensitiveComparer, beq_iff_eq, fetch16_caseInsensitive l,
      fetch16_caseInsensitive r, Prod.mk.injEq]
    exact eq_iff_halves (by simp; omega) (by simp; omega)

theorem isZeroVector_iff {lanes : List UInt8} (h : lanes.length ≤ 16) :
    isZeroVector lanes = true ↔ ∀ x ∈ lanes, x = 0 := by
  rw [isZeroVector, beq_iff_eq, UInt64.or_eq_zero_iff, loadWord_eq_zero_iff (by simp),
    loadWord_eq_zero_iff (by simp),
    List.take_of_length_le (show (lanes.drop 8).length ≤ 8 by simp; omega)]
  conv_rhs => rw [← List.take_append_drop 8 lanes]
  simp only [List.mem_append]
  constructor
  · rintro ⟨htake, hdrop⟩ x (hx | hx)
    · exact htake x hx
    · exact hdrop x hx
  · intro hall
    exact ⟨fun x hx => hall x (.inl hx), fun x hx => hall x (.inr hx)⟩

theorem zipWith_xor_eq_zero_iff : ∀ {a b : List UInt8}, a.length = b.length →
    ((∀ x ∈ List.zipWith (· ^^^ ·) a b, x = 0) ↔ a = b)
  | [], [], _ => by simp
  | x :: a, y :: b, h => by
    simp only [List.zipWith_cons_cons, List.mem_cons, forall_eq_or_imp, UInt8.xor_eq_zero_iff,
      List.cons.injEq, zipWith_xor_eq_zero_iff (by simpa using h : a.length = b.length)]
  | [], _ :: _, h => by simp at h
  | _ :: _, [], h => by simp at h

theorem xor_and_distrib (a b m : UInt8) : (a ^^^ b) &&& m = (a &&& m) ^^^ (b &&& m) := by
  apply UInt8.toBitVec_inj.1
  simp only [UInt8.toBitVec_and, UInt8.toBitVec_xor]
  grind

set_option maxRecDepth 4096 in
/-- Lowering changes bit `32` only. -/
theorem toLowerAscii_and_not_32 : ∀ c : UInt8, toLowerAscii c &&& ~~~32 = c &&& ~~~32 := by
  decide

/-- Bytes equal once lowered differ in bit `32` at most, so the fail-fast test passes them. -/
theorem notLowerUpperDiff_of_lowered : ∀ {a b : List UInt8}, a.map toLowerAscii = b.map toLowerAscii →
    ∀ x ∈ (List.zipWith (· ^^^ ·) a b).map (· &&& ~~~32), x = 0
  | [], _, _ => by simp
  | _ :: _, [], _ => by simp
  | x :: a, y :: b, h => by
    simp only [List.map_cons, List.cons.injEq] at h
    have hbyte : (x ^^^ y) &&& ~~~32 = 0 := by
      rw [xor_and_distrib, ← toLowerAscii_and_not_32 x, ← toLowerAscii_and_not_32 y, h.1,
        UInt8.xor_self]
    simp only [List.zipWith_cons_cons, List.map_cons, List.mem_cons, forall_eq_or_imp]
    exact ⟨hbyte, notLowerUpperDiff_of_lowered h.2⟩

/-- The SSE comparison of sixteen lanes holds exactly when they are equal once lowered. -/
theorem sseFailFastCompare_iff {a b : List UInt8} (hlen : a.length = b.length)
    (h16 : a.length ≤ 16) : sseFailFastCompare a b = true ↔ a.map toLowerAscii = b.map toLowerAscii := by
  have hmask : (List.map (· &&& ~~~32) (List.zipWith (· ^^^ ·) a b)).length ≤ 16 := by simp; omega
  have hdiff : (List.zipWith (· ^^^ ·) (a.map toLowerAscii) (b.map toLowerAscii)).length ≤ 16 := by
    simp; omega
  unfold sseFailFastCompare
  rw [sseLowercaseLane_eq]
  dsimp only
  split
  · -- the fail-fast test found a lane that differs in more than bit `32`
    rename_i hfail
    simp only [Bool.false_eq_true, false_iff]
    intro hlow
    rw [Bool.not_eq_true', ← Bool.not_eq_true, isZeroVector_iff hmask] at hfail
    exact hfail (notLowerUpperDiff_of_lowered hlow)
  · rw [isZeroVector_iff hdiff, zipWith_xor_eq_zero_iff (by simp [hlen])]

theorem caseInsensitiveSseComparer_exact : caseInsensitiveSseComparer.Exact := by
  constructor
  · intro l r hl hr
    simp only [caseInsensitiveSseComparer]
    have hlen8 : ∀ e : List UInt8, 8 ≤ e.length → (load8 e).length = 16 := fun e he => by
      simp only [load8, List.length_append, List.length_take, List.length_replicate]
      omega
    rw [sseFailFastCompare_iff (by rw [hlen8 l hl, hlen8 r hr]) (hlen8 l hl).le, load8, load8,
      List.map_append, List.map_append, List.append_cancel_right_eq]
  · intro l r hl hr
    simp only [caseInsensitiveSseComparer]
    rw [sseFailFastCompare_iff (by simp only [load16, List.length_take]; omega)
      (by simp [load16])]
    rfl

/-- `CaseInsensitiveEqual`, with either fetcher, is equality after 'A'..'Z' are lowered. -/
theorem caseInsensitiveEqual_iff (sse2 : Bool) (lhs rhs : List UInt8) :
    caseInsensitiveEqual sse2 lhs rhs = true ↔ lhs.map toLowerAscii = rhs.map toLowerAscii := by
  cases sse2 with
  | true => exact noCaseEqual_iff caseInsensitiveSseComparer_exact lhs rhs
  | false => exact noCaseEqual_iff caseInsensitiveComparer_exact lhs rhs

end Compare

/-! ## The hashes of a `HeaderMap` respect its key equality -/

/-- `CaseInsensitiveSipHasher`, with either fetcher, hashes strings equal once lowered alike. -/
theorem caseInsensitiveSipHasher_congr (sse2 : Bool) (k0 k1 : UInt64) {s t : List UInt8}
    (h : s.map toLowerAscii = t.map toLowerAscii) :
    caseInsensitiveSipHasher sse2 k0 k1 s = caseInsensitiveSipHasher sse2 k0 k1 t := by
  cases sse2 with
  | true => exact sipHash13_congr caseInsensitiveSseFetcher_readsLowered k0 k1 h
  | false => exact sipHash13_congr caseInsensitiveFetcher_readsLowered k0 k1 h

/-- Strings equal under `CaseInsensitiveEqual` have one hash under `UnsafeConstexprHasher` and,
for every seed, under `CaseInsensitiveSipHasher`, whichever fetchers the two are built with. -/
theorem caseInsensitiveEqual_hashes_agree (sse2 sse2' : Bool) {s t : List UInt8}
    (h : caseInsensitiveEqual sse2 s t = true) :
    unsafeConstexprHasher s = unsafeConstexprHasher t ∧
      ∀ k0 k1 : UInt64, caseInsensitiveSipHasher sse2' k0 k1 s = caseInsensitiveSipHasher sse2' k0 k1 t := by
  have hlow := (caseInsensitiveEqual_iff sse2 s t).1 h
  exact ⟨unsafeConstexprHasher_eq_of_strIcaseEqual (strIcaseEqual_iff.2 hlow),
    fun k0 k1 => caseInsensitiveSipHasher_congr sse2' k0 k1 hlow⟩

theorem caseInsensitiveEqual_hashes_agree_content_type :
    caseInsensitiveEqual true (ascii "Content-Type") (ascii "cONTENT-tYPE") = true ∧
      unsafeConstexprHasher (ascii "Content-Type") = unsafeConstexprHasher (ascii "cONTENT-tYPE") ∧
      ∀ k0 k1 : UInt64, caseInsensitiveSipHasher true k0 k1 (ascii "Content-Type") =
        caseInsensitiveSipHasher true k0 k1 (ascii "cONTENT-tYPE") := by
  have h : caseInsensitiveEqual true (ascii "Content-Type") (ascii "cONTENT-tYPE") = true := by
    decide
  exact ⟨h, caseInsensitiveEqual_hashes_agree true true h⟩

end Impl

end Utils

end Userver
