import Userver.Dump.Types

/-!
# Reading back what was dumped

`readsBack_read`: whenever `writer.Write(v)` succeeds, `reader.Read<T>()` over its bytes followed
by anything returns `v` and leaves exactly what follows.  The proof follows the type: one lemma per
kind of leaf (`bool`, durations, integers of `Userver.Dump.Integer`) and per wrapper (optional
values), and the composite types by recursion on the type, with `Codec.readsBack_readMany` for
containers.
-/

namespace Userver

namespace Dump

open Codec

theorem readsBack_readBool (b : Bool) : ReadsBack readBool (writeBool b) b := by
  have hb : IntType.uint8.InRange (if b then 1 else 0) := by cases b <;> decide
  rw [writeBool, ← List.append_nil (writeInt _ _)]
  refine (readsBack_readInt IntType.uint8 hb).bind ?_
  cases b <;> simpa using ReadsBack.pure _

theorem readsBack_readOptional_none {α : Type} (d : Reader α) :
    ReadsBack (readOptional d) (writeBool false) none := by
  rw [← List.append_nil (writeBool false)]
  refine (readsBack_readBool false).bind ?_
  simpa using ReadsBack.pure _

theorem readsBack_readOptional_some {α : Type} {d : Reader α} {bs : List UInt8} {a : α}
    (h : ReadsBack d bs a) : ReadsBack (readOptional d) (writeBool true ++ bs) (some a) := by
  refine (readsBack_readBool true).bind ?_
  simpa using h.map some

/-- A duration dumped as nanoseconds has at least one nanosecond per tick. -/
theorem nanosPerTick_pos {den : Nat} (h : 1000 ≤ den ∧ 10 ^ 9 % den = 0) : 0 < nanosPerTick den :=
  Nat.div_pos (Nat.le_of_dvd (by norm_num) (Nat.dvd_of_mod_eq_zero h.2)) (by omega)

theorem readsBack_readDuration (d : DurationType) (x : {x : Int // d.InRange x}) {bs : List UInt8}
    (h : writeDuration d x.1 = .ok bs) : ReadsBack (readDuration d) bs x := by
  obtain ⟨x, hx⟩ := x
  cases d with
  | nanoseconds den hden =>
    -- the count times the tick length fits in `int64_t`, or the write failed
    by_cases hfit : IntType.int64.InRange (x * nanosPerTick den)
    · simp only [writeDuration, hfit, not_true_eq_false, if_false, ne_eq, bind_pure_comp] at h
      cases h
      obtain ⟨hlo, hhi⟩ := IntType.cast_inRange IntType.uint64 (x * nanosPerTick den)
      rw [show IntType.uint64.lowest = 0 from rfl] at hlo
      rw [show IntType.uint64.max = 2 ^ 64 - 1 from rfl] at hhi
      rw [← List.append_nil (writeTrivial 8 _)]
      refine (readsBack_readTrivial 8 (by omega)).bind ?_
      have hcount : IntType.int64.cast
          ((IntType.uint64.cast (x * nanosPerTick den)).toNat : Nat) = x * nanosPerTick den := by
        rw [Int.toNat_of_nonneg hlo, IntType.cast_cast (t := IntType.int64) (u := IntType.uint64) rfl,
          IntType.cast_of_inRange hfit]
      have hdiv : (x * nanosPerTick den).tdiv (nanosPerTick den) = x :=
        Int.mul_tdiv_cancel x (by have := nanosPerTick_pos hden; omega)
      simp only [hcount, hdiv]
      exact ReadsBack.pure _
    · simp [writeDuration, hfit] at h
      exact nomatch h
  | trivial rep =>
    simp only [writeDuration] at h
    cases h
    have hpos : (0 : Int) < 2 ^ (8 * rep.size) := by positivity
    have h0 := Int.emod_nonneg x hpos.ne'
    have h1 := Int.emod_lt_of_pos x hpos
    rw [← List.append_nil (writeTrivial _ _)]
    refine (readsBack_readTrivial rep.size ?_).bind ?_
    · have hc : ((2 ^ (8 * rep.size) : Nat) : Int) = 2 ^ (8 * rep.size) := by push_cast; rfl
      rw [show (256 : Nat) ^ rep.size = 2 ^ (8 * rep.size) by rw [pow_mul]; rfl]
      omega
    · have hcount : rep.cast ((x % 2 ^ (8 * rep.size)).toNat : Nat) = x := by
        rw [Int.toNat_of_nonneg h0, IntType.cast_emod, IntType.cast_of_inRange hx]
      simp only [hcount]
      exact ReadsBack.pure _

/-- A length that fits `std::size_t`. -/
theorem uint64_inRange_length {n : Nat} (h : n < 2 ^ 64) : IntType.uint64.InRange (n : Int) := by
  refine ⟨?_, ?_⟩
  · rw [show IntType.uint64.lowest = 0 from rfl]
    omega
  · rw [show IntType.uint64.max = 2 ^ 64 - 1 from rfl]
    omega

theorem int64_inRange_of_inInt64 {x : Int} (h : Decimal64.InInt64 x) : IntType.int64.InRange x := by
  obtain ⟨hlo, hhi⟩ := h
  unfold Decimal64.kMinInt64 at hlo
  unfold Decimal64.kMaxInt64 at hhi
  refine ⟨?_, ?_⟩
  · rw [show IntType.int64.lowest = -2 ^ 63 from rfl]
    exact hlo
  · rw [show IntType.int64.max = 2 ^ 63 - 1 from rfl]
    exact hhi

theorem readsBack_readString (s : {s : List UInt8 // s.length < 2 ^ 64}) :
    ReadsBack readString (writeInt IntType.uint64 s.1.length ++ s.1) s := by
  have h1 := readsBack_readInt IntType.uint64 (uint64_inRange_length s.2)
  have h2 := readsBack_readStringViewUnsafe s.1 (n := ((s.1.length : Int)).toNat) (by simp)
  have h3 := h2.bind (k := fun bytes => (pure ⟨bytes.1, by rw [bytes.2]; simpa using s.2⟩ :
    Reader {s : List UInt8 // s.length < 2 ^ 64})) (ReadsBack.pure _)
  rw [List.append_nil] at h3
  exact h1.bind h3

theorem readsBack_readContainer {α : Type} {readItem : Reader α}
    {w : α → Except DumpError (List UInt8)} (vs : {vs : List α // vs.length < 2 ^ 64})
    {bs : List UInt8} (hw : writeMany w vs.1 = .ok bs)
    (hitems : ∀ a ∈ vs.1, ∀ b, w a = .ok b → ReadsBack readItem b a) :
    ReadsBack (readContainer readItem) (writeInt IntType.uint64 vs.1.length ++ bs) vs := by
  have h1 := readsBack_readInt IntType.uint64 (uint64_inRange_length vs.2)
  have h2 := readsBack_readMany (d := readItem) (n := ((vs.1.length : Int)).toNat) (by simp) hw
    hitems
  have h3 := h2.bind (k := fun items => (pure ⟨items.1, by rw [items.2]; simpa using vs.2⟩ :
    Reader {vs : List α // vs.length < 2 ^ 64})) (ReadsBack.pure _)
  rw [List.append_nil] at h3
  exact h1.bind h3

theorem readsBack_readVariant {count : Nat} {β : Fin count → Type}
    {readOf : (i : Fin count) → Reader (β i)} (hcount : count ≤ 2 ^ 64) (i : Fin count)
    {bs : List UInt8} {v : β i} (h : ReadsBack (readOf i) bs v) :
    ReadsBack (readVariant readOf) (writeInt IntType.uint64 i ++ bs) ⟨i, v⟩ := by
  have h1 := readsBack_readInt IntType.uint64 (uint64_inRange_length (n := i) (by omega))
  refine h1.bind ?_
  simpa [Nat.not_le.mpr i.2, readAlternative] using h.map (fun x => (⟨i, x⟩ : (j : Fin count) × β j))

/-- Whenever `writer.Write(v)` succeeds, `reader.Read<T>()` reads `v` back from its bytes and
leaves what follows them. -/
theorem readsBack_read : (t : DumpType) → (v : t.Value) → (bs : List UInt8) →
    write t v = .ok bs → ReadsBack (read t) bs v
  | .integer it, x, bs, h => by
    simp only [write] at h
    cases h
    exact readsBack_readInt it x.2
  | .enumeration it, x, bs, h => by
    simp only [write] at h
    cases h
    exact readsBack_readInt it x.2
  | .bool, b, bs, h => by
    simp only [write] at h
    cases h
    exact readsBack_readBool b
  | .string, s, bs, h => by
    simp only [write] at h
    cases h
    exact readsBack_readString s
  | .duration d, x, bs, h => by
    simp only [write] at h
    exact readsBack_readDuration d x h
  | .timePoint d, x, bs, h => by
    simp only [write] at h
    exact readsBack_readDuration d x h
  | .decimal prec rp, (dec : Decimal64.Decimal prec rp), bs, h => by
    simp only [write] at h
    cases h
    rw [← List.append_nil (writeInt _ _)]
    refine (readsBack_readInt IntType.int64 (int64_inRange_of_inInt64 dec.inInt64)).bind ?_
    show ReadsBack (pure (Decimal64.Decimal.fromUnbiased dec.unbiased : Decimal64.Decimal prec rp))
      [] dec
    rw [Decimal64.Decimal.fromUnbiased_self]
    exact ReadsBack.pure _
  | .pair a b, v, bs, h => by
    simp only [write] at h
    obtain ⟨b1, h1, b2, h2, rfl⟩ : ∃ b1, write a v.1 = .ok b1 ∧ ∃ b2, write b v.2 = .ok b2 ∧
        b1 ++ b2 = bs := by
      simpa [bind_eq_ok, map_eq_ok] using h
    rw [← List.append_nil b2]
    exact (readsBack_read a v.1 b1 h1).bind ((readsBack_read b v.2 b2 h2).bind (ReadsBack.pure _))
  | .optional t, none, bs, h => by
    simp only [write] at h
    cases h
    exact readsBack_readOptional_none (read t)
  | .optional t, some v, bs, h => by
    simp only [write] at h
    obtain ⟨b, hb, rfl⟩ : ∃ b, write t v = .ok b ∧ writeBool true ++ b = bs := by
      simpa [bind_eq_ok, map_eq_ok] using h
    exact readsBack_readOptional_some (readsBack_read t v b hb)
  | .uniquePtr t, none, bs, h => by
    simp only [write] at h
    cases h
    exact readsBack_readOptional_none (read t)
  | .uniquePtr t, some v, bs, h => by
    simp only [write] at h
    obtain ⟨b, hb, rfl⟩ : ∃ b, write t v = .ok b ∧ writeBool true ++ b = bs := by
      simpa [bind_eq_ok, map_eq_ok] using h
    exact readsBack_readOptional_some (readsBack_read t v b hb)
  | .sharedPtr t, none, bs, h => by
    simp only [write] at h
    cases h
    exact readsBack_readOptional_none (read t)
  | .sharedPtr t, some v, bs, h => by
    simp only [write] at h
    obtain ⟨b, hb, rfl⟩ : ∃ b, write t v = .ok b ∧ writeBool true ++ b = bs := by
      simpa [bind_eq_ok, map_eq_ok] using h
    exact readsBack_readOptional_some (readsBack_read t v b hb)
  | .strongTypedef t, v, bs, h => by
    simp only [write] at h
    exact readsBack_read t v bs h
  | .variant count hcount alternatives, v, bs, h => by
    simp only [write] at h
    obtain ⟨b, hb, rfl⟩ : ∃ b, write (alternatives v.1) v.2 = .ok b ∧
        writeInt IntType.uint64 v.1 ++ b = bs := by
      simpa [bind_eq_ok, map_eq_ok] using h
    exact readsBack_readVariant hcount v.1 (readsBack_read (alternatives v.1) v.2 b hb)
  | .container t, vs, bs, h => by
    simp only [write] at h
    obtain ⟨b, hb, rfl⟩ : ∃ b, writeMany (write t) vs.1 = .ok b ∧
        writeInt IntType.uint64 vs.1.length ++ b = bs := by
      simpa [bind_eq_ok, map_eq_ok] using h
    exact readsBack_readContainer vs hb fun a _ b' hb' => readsBack_read t a b' hb'

/-! ## When `Write` succeeds -/

/-- A count of the duration type whose conversion to nanoseconds, if it is dumped as
nanoseconds, is an `int64_t`. -/
def DurationType.Fits : DurationType → Int → Prop
  | .nanoseconds den _, x => IntType.int64.InRange (x * nanosPerTick den)
  | .trivial _, _ => True

instance (d : DurationType) (x : Int) : Decidable (d.Fits x) :=
  match d with
  | .nanoseconds den _ => inferInstanceAs (Decidable (IntType.int64.InRange (x * nanosPerTick den)))
  | .trivial _ => inferInstanceAs (Decidable True)

/-- Every duration in the value that is dumped as nanoseconds has a count of nanoseconds that
is an `int64_t`. -/
def DumpType.Fits : (t : DumpType) → t.Value → Prop
  | .duration d, x => d.Fits x.1
  | .timePoint d, x => d.Fits x.1
  | .pair a b, (v : a.Value × b.Value) => a.Fits v.1 ∧ b.Fits v.2
  | .optional t, (v : Option t.Value) => ∀ x ∈ v, t.Fits x
  | .uniquePtr t, (v : Option t.Value) => ∀ x ∈ v, t.Fits x
  | .sharedPtr t, (v : Option t.Value) => ∀ x ∈ v, t.Fits x
  | .strongTypedef t, v => t.Fits v
  | .variant _ _ alternatives, v => (alternatives v.1).Fits v.2
  | .container t, (vs : {vs : List t.Value // vs.length < 2 ^ 64}) => ∀ x ∈ vs.1, t.Fits x
  | .integer _, _ | .enumeration _, _ | .bool, _ | .string, _ | .decimal _ _, _ => True

theorem writeDuration_ok {d : DurationType} {x : Int} (h : d.Fits x) :
    ∃ bs, writeDuration d x = .ok bs := by
  cases d with
  | nanoseconds den hden =>
    exact ⟨_, by simp [writeDuration, show IntType.int64.InRange _ from h]; rfl⟩
  | trivial rep => exact ⟨_, rfl⟩

/-- `Write` succeeds on every value whose durations fit. -/
theorem write_ok_of_fits : (t : DumpType) → (v : t.Value) → t.Fits v → ∃ bs, write t v = .ok bs
  | .integer _, _, _ | .enumeration _, _, _ | .bool, _, _ | .string, _, _
  | .decimal _ _, _, _ => ⟨_, rfl⟩
  | .duration d, x, h => writeDuration_ok (d := d) h
  | .timePoint d, x, h => writeDuration_ok (d := d) h
  | .pair a b, v, h => by
    obtain ⟨b1, h1⟩ := write_ok_of_fits a v.1 h.1
    obtain ⟨b2, h2⟩ := write_ok_of_fits b v.2 h.2
    exact ⟨b1 ++ b2, by simp [write, h1, h2]⟩
  | .optional t, none, _ | .uniquePtr t, none, _ | .sharedPtr t, none, _ => ⟨_, rfl⟩
  | .optional t, some v, h | .uniquePtr t, some v, h | .sharedPtr t, some v, h => by
    obtain ⟨b, hb⟩ := write_ok_of_fits t v (h v rfl)
    exact ⟨_, by simp [write, hb]; rfl⟩
  | .strongTypedef t, v, h => write_ok_of_fits t v h
  | .variant _ _ alternatives, v, h => by
    obtain ⟨b, hb⟩ := write_ok_of_fits (alternatives v.1) v.2 h
    exact ⟨_, by simp [write, hb]; rfl⟩
  | .container t, vs, h => by
    obtain ⟨b, hb⟩ := writeMany_ok vs.1 fun x hx => write_ok_of_fits t x (h x hx)
    exact ⟨_, by simp [write, hb]; rfl⟩

/-- The dump format reads back what it writes: `impl::ReadInteger` every `uint64_t`, written in
1, 2, 4 or 9 bytes by range, and `Read` every value whose durations dumped as nanoseconds fit an
`int64_t` count of nanoseconds, which `Write` then accepts. -/
theorem read_write_cycle :
    (∀ x : Nat, x < 2 ^ 64 → ReadsBack readInteger (writeInteger x) x ∧
      (writeInteger x).length =
        if x < 0x80 then 1 else if x < 0x4000 then 2 else if x < 0x3f000000 then 4 else 9) ∧
    ∀ (t : DumpType) (v : t.Value), t.Fits v →
      ∃ bytes, write t v = .ok bytes ∧ ReadsBack (read t) bytes v := by
  refine ⟨fun x hx => ⟨readsBack_readInteger hx, length_writeInteger x⟩, fun t v hv => ?_⟩
  obtain ⟨bytes, hw⟩ := write_ok_of_fits t v hv
  exact ⟨bytes, hw, readsBack_read t v bytes hw⟩

theorem read_write_cycle_minus_five_milliseconds :
    (300 < 2 ^ 64 ∧ ReadsBack readInteger (writeInteger 300) 300) ∧
      ∃ bytes, write (.duration .milliseconds) (⟨-5, by decide⟩ : {x : Int // IntType.int64.InRange x}) =
        .ok bytes ∧ ReadsBack (read (.duration .milliseconds)) bytes
          (⟨-5, by decide⟩ : {x : Int // IntType.int64.InRange x}) :=
  ⟨⟨by norm_num, (read_write_cycle.1 300 (by norm_num)).1⟩,
    read_write_cycle.2 (.duration .milliseconds) ⟨-5, by decide⟩
      (show DurationType.milliseconds.Fits (-5) by decide)⟩

/-- `std::chrono::milliseconds{10^13}` is `10^19` nanoseconds, past `int64_t`: the conversion
overflows before the check for huge durations, and nothing is written that reads back. -/
theorem write_huge_milliseconds :
    write (.duration .milliseconds) (⟨10 ^ 13, by decide⟩ : {x : Int // IntType.int64.InRange x}) =
      .error .signedOverflow := by
  decide

end Dump

end Userver
