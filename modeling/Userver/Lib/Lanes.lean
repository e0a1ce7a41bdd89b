import Userver.Lib.Codec

/-!
# Machine words as bytes, and lane masks

Code that reads a string a word at a time loads bytes into a `uint64_t` with `memcpy` (little
endian: the first byte is the lowest), shifts the word to drop bytes, and stores it back.  A
SIMD comparison leaves one flag per lane, which `movemask` gathers into an integer whose bit `i`
is lane `i`'s flag; `__builtin_ctz` of it then names the first lane that is set.

Words are read as the base-256 numbers `Codec.leValue` of their bytes: dropping the first `k`
bytes divides by `256 ^ k` (`leValue_div_pow`), and storing a word of fewer than eight bytes
gives them back followed by zeros (`storeWord_loadWord`).  A mask is the base-2 number of its
flags (`maskOf`): shifting and truncating it picks out a range of lanes (`maskOf_div_pow`,
`maskOf_mod_pow`), and its trailing zeros count the lanes before the first one set
(`ctz_maskOf`).

The SIMD instructions are functions of lane lists (`cmpgtLanes`, `cmpeqLanes`, `orLanes`,
`movemaskLanes`, `shuffleLanes`, the same for 16 and 32 lanes): a comparison leaves all ones or
zero in each lane (`laneOf`), whose `movemask` is the mask of the flags (`movemaskLanes_map_laneOf`);
and testing a range of lanes of a 32-bit mask by shifting the others out is testing the flags in
that range (`shiftOut_ne_zero`).
-/

namespace Lanes

open Codec

/-! ## Little-endian numbers -/

theorem leValue_append (as bs : List UInt8) :
    leValue (as ++ bs) = leValue as + 256 ^ as.length * leValue bs := by
  induction as with
  | nil => simp [leValue]
  | cons a as ih =>
    simp only [List.cons_append, leValue, ih, List.length_cons, pow_succ]
    ring

@[simp] theorem leValue_replicate_zero (n : Nat) : leValue (List.replicate n 0) = 0 := by
  induction n with
  | zero => rfl
  | succ n ih => simp [List.replicate_succ, leValue, ih]

theorem leValue_eq_zero_iff {bs : List UInt8} : leValue bs = 0 ↔ ∀ b ∈ bs, b = 0 := by
  induction bs with
  | nil => simp [leValue]
  | cons b bs ih =>
    simp only [leValue, List.mem_cons, forall_eq_or_imp, ← ih]
    constructor
    · intro h
      exact ⟨UInt8.toNat_inj.1 (by simp; omega), by omega⟩
    · rintro ⟨rfl, h⟩
      simp [h]

/-- Dropping the first `k` bytes divides by `256 ^ k`. -/
theorem leValue_div_pow (bs : List UInt8) (k : Nat) :
    leValue bs / 256 ^ k = leValue (bs.drop k) := by
  rcases le_or_gt k bs.length with hk | hk
  · have hlow : leValue (bs.take k) < 256 ^ k := by
      simpa [List.length_take_of_le hk] using leValue_lt (bs.take k)
    conv_lhs => rw [← List.take_append_drop k bs, leValue_append, List.length_take_of_le hk]
    rw [Nat.add_mul_div_left _ _ (by positivity), Nat.div_eq_of_lt hlow, zero_add]
  · have hlow : leValue bs < 256 ^ k :=
      lt_of_lt_of_le (leValue_lt bs) (Nat.pow_le_pow_right (by norm_num) hk.le)
    rw [List.drop_eq_nil_of_le hk.le, Nat.div_eq_of_lt hlow]
    rfl

/-- Writing out a number read from at most `n` bytes gives the bytes back, then zeros. -/
theorem leBytes_leValue : ∀ (n : Nat) (bs : List UInt8), bs.length ≤ n →
    leBytes n (leValue bs) = bs ++ List.replicate (n - bs.length) 0
  | 0, [], _ => rfl
  | n + 1, [], _ => by
    have ih := leBytes_leValue n [] (Nat.zero_le _)
    simp only [leValue, List.length_nil, Nat.sub_zero, List.nil_append] at ih ⊢
    rw [leBytes, ih]
    rfl
  | n + 1, b :: bs, h => by
    have hb := b.toNat_lt
    have ih := leBytes_leValue n bs (by simpa using h)
    have hdigit : UInt8.ofNat (b.toNat + 256 * leValue bs) = b := by
      apply UInt8.toNat_inj.1
      rw [UInt8.toNat_ofNat']
      omega
    have hrest : (b.toNat + 256 * leValue bs) / 256 = leValue bs := by omega
    rw [leValue, leBytes, hdigit, hrest, ih]
    simp

/-! ## Words -/

/-- A `uint64_t` read from memory: `memcpy` of at most eight bytes, little endian. -/
def loadWord (bs : List UInt8) : UInt64 := UInt64.ofNat (leValue bs)

/-- The eight bytes of a `uint64_t` as it lies in memory. -/
def storeWord (w : UInt64) : List UInt8 := leBytes 8 w.toNat

theorem toNat_loadWord {bs : List UInt8} (h : bs.length ≤ 8) : (loadWord bs).toNat = leValue bs := by
  have hlt : leValue bs < 2 ^ 64 :=
    calc leValue bs < 256 ^ bs.length := leValue_lt bs
      _ ≤ 256 ^ 8 := Nat.pow_le_pow_right (by norm_num) h
      _ = 2 ^ 64 := by norm_num
  rw [loadWord, UInt64.toNat_ofNat', Nat.mod_eq_of_lt hlt]

theorem storeWord_loadWord {bs : List UInt8} (h : bs.length ≤ 8) :
    storeWord (loadWord bs) = bs ++ List.replicate (8 - bs.length) 0 := by
  rw [storeWord, toNat_loadWord h, leBytes_leValue 8 bs h]

/-- A shift by `k` whole bytes of a word, as the shift instruction takes it. -/
theorem byteShift_toNat {k : Nat} (hk : k < 8) : (8 * k).toUInt64.toNat % 64 = 8 * k := by
  rw [Nat.toUInt64_eq, UInt64.toNat_ofNat', Nat.mod_eq_of_lt (by omega), Nat.mod_eq_of_lt (by omega)]

/-- Shifting a word right by whole bytes drops its first bytes. -/
theorem loadWord_shiftRight {bs : List UInt8} (h : bs.length ≤ 8) {k : Nat} (hk : k < 8) :
    loadWord bs >>> (8 * k).toUInt64 = loadWord (bs.drop k) := by
  apply UInt64.toNat_inj.1
  have hdrop : (bs.drop k).length ≤ 8 := by simp; omega
  rw [UInt64.toNat_shiftRight, byteShift_toNat hk, toNat_loadWord h, toNat_loadWord hdrop,
    Nat.shiftRight_eq_div_pow, pow_mul, show (2 : Nat) ^ 8 = 256 by norm_num, leValue_div_pow]

/-- ORing a byte into a word above its first bytes appends it to them. -/
theorem loadWord_concat {bs : List UInt8} (h : bs.length < 8) (b : UInt8) :
    b.toUInt64 <<< (8 * bs.length).toUInt64 ||| loadWord bs = loadWord (bs ++ [b]) := by
  apply UInt64.toNat_inj.1
  have hpow : (256 : Nat) ^ bs.length = 2 ^ (8 * bs.length) := by rw [pow_mul]; norm_num
  have hlow : leValue bs < 2 ^ (8 * bs.length) := hpow ▸ leValue_lt bs
  have hhigh : b.toNat * 2 ^ (8 * bs.length) < 2 ^ 64 :=
    calc b.toNat * 2 ^ (8 * bs.length) < 2 ^ 8 * 2 ^ (8 * bs.length) :=
          Nat.mul_lt_mul_of_pos_right b.toNat_lt (by positivity)
      _ ≤ 2 ^ 64 := by
          rw [← pow_add]
          exact Nat.pow_le_pow_right (by norm_num) (by omega)
  rw [UInt64.toNat_or, UInt64.toNat_shiftLeft, byteShift_toNat h, UInt8.toNat_toUInt64,
    Nat.shiftLeft_eq, Nat.mod_eq_of_lt hhigh, toNat_loadWord h.le,
    toNat_loadWord (by simp; omega), leValue_append, hpow, mul_comm,
    ← Nat.two_pow_add_eq_or_of_lt hlow]
  simp [leValue]
  ring

/-- Words of eight bytes are equal only when their bytes are. -/
theorem loadWord_inj {as bs : List UInt8} (ha : as.length = 8) (hb : bs.length = 8) :
    loadWord as = loadWord bs ↔ as = bs := by
  constructor
  · intro h
    have := congrArg storeWord h
    rwa [storeWord_loadWord ha.le, storeWord_loadWord hb.le, ha, hb, List.append_cancel_right_eq]
      at this
  · rintro rfl
    rfl

theorem loadWord_eq_zero_iff {bs : List UInt8} (h : bs.length ≤ 8) :
    loadWord bs = 0 ↔ ∀ b ∈ bs, b = 0 := by
  rw [← leValue_eq_zero_iff, ← toNat_loadWord h, ← UInt64.toNat_inj]
  rfl

/-- Shifting a word right by four bits leaves in the low half of each byte the high half of that
byte. -/
theorem leBytes_div_sixteen : ∀ bs : List UInt8,
    (leBytes bs.length (leValue bs / 16)).map (· &&& (15 : UInt8)) = bs.map (· >>> (4 : UInt8))
  | [] => rfl
  | b :: bs => by
    have hb := b.toNat_lt
    have hdiv : (b.toNat + 256 * leValue bs) / 16 = b.toNat / 16 + 16 * leValue bs := by omega
    have hnext : (b.toNat / 16 + 16 * leValue bs) / 256 = leValue bs / 16 := by omega
    have hhead : UInt8.ofNat (b.toNat / 16 + 16 * leValue bs) &&& (15 : UInt8) = b >>> (4 : UInt8) := by
      apply UInt8.toNat_inj.1
      rw [UInt8.toNat_and, UInt8.toNat_ofNat', UInt8.toNat_shiftRight,
        show (15 : UInt8).toNat = 2 ^ 4 - 1 from rfl, Nat.and_two_pow_sub_one_eq_mod]
      simp only [UInt8.reduceToNat, Nat.reduceMod, Nat.shiftRight_eq_div_pow]
      omega
    rw [leValue, List.length_cons, leBytes, hdiv, hnext, List.map_cons, List.map_cons,
      leBytes_div_sixteen bs, hhead]

/-! ## Lane masks -/

/-- The mask `movemask` makes of lane flags: bit `i` is the flag of lane `i`. -/
def maskOf : List Bool → Nat
  | [] => 0
  | b :: bs => b.toNat + 2 * maskOf bs

theorem maskOf_lt (bs : List Bool) : maskOf bs < 2 ^ bs.length := by
  induction bs with
  | nil => simp [maskOf]
  | cons b bs ih =>
    have hb : b.toNat ≤ 1 := by cases b <;> simp
    simp only [maskOf, List.length_cons, pow_succ]
    omega

theorem maskOf_eq_zero_iff {bs : List Bool} : maskOf bs = 0 ↔ ∀ b ∈ bs, b = false := by
  induction bs with
  | nil => simp [maskOf]
  | cons b bs ih =>
    cases b <;> simp [maskOf, ih]

/-- Shifting a mask right by `k` drops the first `k` lanes. -/
theorem maskOf_div_pow (bs : List Bool) (k : Nat) : maskOf bs / 2 ^ k = maskOf (bs.drop k) := by
  induction k generalizing bs with
  | zero => simp
  | succ k ih =>
    cases bs with
    | nil => simp [maskOf]
    | cons b bs =>
      have hb : b.toNat ≤ 1 := by cases b <;> simp
      rw [pow_succ', ← Nat.div_div_eq_div_mul, List.drop_succ_cons, ← ih bs, maskOf]
      congr 1
      omega

/-- Truncating a mask to `k` bits keeps the first `k` lanes. -/
theorem maskOf_mod_pow (bs : List Bool) (k : Nat) : maskOf bs % 2 ^ k = maskOf (bs.take k) := by
  induction k generalizing bs with
  | zero => simp [maskOf, Nat.mod_one]
  | succ k ih =>
    cases bs with
    | nil => simp [maskOf]
    | cons b bs =>
      have hb : b.toNat ≤ 1 := by cases b <;> simp
      have hhalf : (b.toNat + 2 * maskOf bs) / 2 = maskOf bs := by omega
      rw [List.take_succ_cons, maskOf, maskOf, ← ih bs, pow_succ', Nat.mod_mul, hhalf]
      omega

theorem maskOf_append (bs cs : List Bool) :
    maskOf (bs ++ cs) = maskOf bs + 2 ^ bs.length * maskOf cs := by
  induction bs with
  | nil => simp [maskOf]
  | cons b bs ih =>
    simp only [List.cons_append, maskOf, ih, List.length_cons, pow_succ]
    ring

/-- Lanes laid after others set the bits of the mask above theirs. -/
theorem maskOf_append_or (bs cs : List Bool) :
    maskOf (bs ++ cs) = maskOf bs ||| maskOf cs <<< bs.length := by
  rw [maskOf_append, Nat.shiftLeft_eq, Nat.mul_comm (maskOf cs), Nat.add_comm,
    Nat.two_pow_add_eq_or_of_lt (maskOf_lt bs), Nat.lor_comm]

/-- A mask built one lane at a time, `mask |= flag(i) << i`. -/
theorem foldl_or_shiftLeft (f : Nat → Bool) (k : Nat) :
    (List.range k).foldl (fun mask i => mask ||| (f i).toNat <<< i) 0 =
      maskOf ((List.range k).map f) := by
  induction k with
  | zero => rfl
  | succ k ih =>
    rw [List.range_succ, List.foldl_append, ih, List.map_append, maskOf_append_or,
      List.length_map, List.length_range]
    simp [maskOf]

/-- `__builtin_ctz` of a non-zero mask: the number of its trailing zero bits, looked for among
its `fuel` lowest bits. -/
def ctz : Nat → Nat → Nat
  | 0, _ => 0
  | fuel + 1, m => if m % 2 = 1 then 0 else ctz fuel (m / 2) + 1

/-- The trailing zeros of a mask with a lane set count the lanes before the first one set. -/
theorem ctz_maskOf : ∀ (fuel : Nat) (bs : List Bool), bs.length ≤ fuel → true ∈ bs →
    ctz fuel (maskOf bs) = bs.findIdx id
  | _, [], _, h => by simp at h
  | 0, _ :: _, h, _ => by simp at h
  | fuel + 1, b :: bs, hlen, hmem => by
    cases b with
    | true => simp [ctz, maskOf, List.findIdx_cons]
    | false =>
      have hrest : true ∈ bs := by simpa using hmem
      have ih := ctz_maskOf fuel bs (by simpa using hlen) hrest
      simp only [ctz, maskOf, Bool.toNat_false, zero_add, Nat.mul_mod_right, zero_ne_one,
        ↓reduceIte, Nat.mul_div_cancel_left _ (by norm_num : 0 < 2), ih, List.findIdx_cons, id]
      rfl

/-! ## SIMD lane operations -/

/-- A lane a comparison leaves: all ones where it holds, zero elsewhere. -/
def laneOf (b : Bool) : UInt8 := if b then 0xff else 0

/-- `_mm_set1_epi8(x)`, `_mm256_set1_epi8(x)`: `n` lanes of `x`. -/
def set1Lanes (n : Nat) (x : UInt8) : List UInt8 := List.replicate n x

/-- `_mm_cmpgt_epi8(a, b)`, `_mm256_cmpgt_epi8(a, b)`: the lanes where `a` is greater, as
signed bytes. -/
def cmpgtLanes (a b : List UInt8) : List UInt8 :=
  List.zipWith (fun x y => laneOf (decide (y.toInt8 < x.toInt8))) a b

/-- `_mm_cmpeq_epi8(a, b)`, `_mm256_cmpeq_epi8(a, b)`. -/
def cmpeqLanes (a b : List UInt8) : List UInt8 := List.zipWith (fun x y => laneOf (x == y)) a b

/-- `_mm_or_si128(a, b)`, `_mm256_or_si256(a, b)`. -/
def orLanes (a b : List UInt8) : List UInt8 := List.zipWith (· ||| ·) a b

/-- `_mm_movemask_epi8(a)`, `_mm256_movemask_epi8(a)`: bit `i` is the top bit of lane `i`. -/
def movemaskLanes (a : List UInt8) : Nat := maskOf (a.map fun x => decide (0x80 ≤ x))

/-- `_mm_shuffle_epi8(a, b)`: lane `i` is zero where lane `i` of `b` has its top bit set, and
else the lane of `a` its low four bits name. -/
def shuffleLanes (a b : List UInt8) : List UInt8 :=
  b.map fun i => if 0x80 ≤ i then 0 else a.getD (i % 16).toNat 0

theorem movemaskLanes_map_laneOf (flags : List Bool) :
    movemaskLanes (flags.map laneOf) = maskOf flags := by
  have htop : ∀ b : Bool, decide (0x80 ≤ laneOf b) = b := by decide
  simp only [movemaskLanes, List.map_map, Function.comp_def, htop, List.map_id']

/-- Lanes below a bound or equal to a byte, compared against a broadcast bound and byte and
ORed, as `_mm_or_si128(_mm_cmpgt_epi8(_mm_set1_epi8(x), a), _mm_cmpeq_epi8(a, _mm_set1_epi8(y)))`
makes them. -/
theorem orLanes_cmpgt_cmpeq (x y : UInt8) (a : List UInt8) :
    orLanes (cmpgtLanes (set1Lanes a.length x) a) (cmpeqLanes a (set1Lanes a.length y)) =
      a.map fun z => laneOf (decide (z.toInt8 < x.toInt8) || z == y) := by
  have hor : ∀ b c : Bool, laneOf b ||| laneOf c = laneOf (b || c) := by decide
  induction a with
  | nil => rfl
  | cons z a ih =>
    simp only [List.length_cons, set1Lanes, List.replicate_succ, cmpgtLanes, cmpeqLanes, orLanes,
      List.zipWith_cons_cons, List.map_cons, hor] at ih ⊢
    rw [ih]

/-- Shifting a 32-bit mask right by `o` and left by `32 - c` leaves its bits `o` to `o + c - 1`:
the result is non-zero exactly when one of them is set. -/
theorem shiftOut_ne_zero {m o c : Nat} (hm : m < 2 ^ 32) (ho : o < 32) (hc : 0 < c)
    (hc' : c ≤ 32) :
    ((m.toUInt32 >>> o.toUInt32 <<< (32 - c).toUInt32) != 0) = decide (m / 2 ^ o % 2 ^ c ≠ 0) := by
  have hshift : ∀ k < 32, k.toUInt32.toNat % 32 = k := by
    intro k hk
    rw [Nat.toUInt32_eq, UInt32.toNat_ofNat', Nat.mod_eq_of_lt (show k < 2 ^ 32 by omega),
      Nat.mod_eq_of_lt hk]
  have hsplit : 2 ^ 32 = 2 ^ c * 2 ^ (32 - c) := by rw [← pow_add]; congr 1; omega
  have hval : (m.toUInt32 >>> o.toUInt32 <<< (32 - c).toUInt32).toNat =
      m / 2 ^ o % 2 ^ c * 2 ^ (32 - c) := by
    rw [UInt32.toNat_shiftLeft, UInt32.toNat_shiftRight, hshift o ho, hshift (32 - c) (by omega),
      Nat.toUInt32_eq, UInt32.toNat_ofNat', Nat.mod_eq_of_lt hm, Nat.shiftRight_eq_div_pow,
      Nat.shiftLeft_eq, hsplit, Nat.mul_mod_mul_right]
  rw [Bool.eq_iff_iff, bne_iff_ne, decide_eq_true_iff, ne_eq, ne_eq, ← UInt32.toNat_inj, hval,
    UInt32.toNat_zero, Nat.mul_eq_zero]
  simp

end Lanes
