import Userver.Dump.Integer
import Userver.Decimal64.Basic

/-!
# The dump format of composite types

`dump::Write` and `dump::Read` are overloaded on the type of the value (`common.hpp`,
`common_containers.hpp`).  `DumpType` lists the types these overloads cover, nested arbitrarily:
integers of every width, enumerations (written as their underlying integer), `bool`,
`std::string`, `std::chrono` durations and `system_clock` time points, `decimal64::Decimal`,
`std::pair`, `std::optional`, `std::unique_ptr`, `std::shared_ptr`, `utils::StrongTypedef`,
`std::variant` and size-prefixed containers.  `DumpType.Value t` is the set of values of `t`;
integer-like values carry their range, so that `read` builds only values of the type.

A container is modelled by the sequence it iterates over, which is what it writes; reading back
inserts the elements in that order.

Durations whose `Rep` is an integer, whose period is `1/den` of at most a millisecond and whose
`den` divides `10^9` satisfy `impl::kIsDumpedAsNanoseconds` and are written as an `int64_t`
count of nanoseconds; the standard ones (`nanoseconds`, `microseconds`, `milliseconds`,
`system_clock::duration`) have an `int64_t` `Rep`, and so do those modelled here.  Every other
duration is written as its own count.
-/

namespace Userver

namespace Dump

open Codec

/-- A `std::chrono::duration` type with an integer `Rep`. -/
inductive DurationType where
  /-- A duration dumped as nanoseconds: `int64_t` ticks of `1/den` seconds. -/
  | nanoseconds (den : Nat) (h : 1000 ≤ den ∧ 10 ^ 9 % den = 0)
  /-- Any other duration, dumped as its count of type `rep`. -/
  | trivial (rep : IntType)

/-- The nanoseconds in a tick of a duration dumped as nanoseconds. -/
def nanosPerTick (den : Nat) : Nat := 10 ^ 9 / den

/-- The counts of the duration type. -/
def DurationType.InRange : DurationType → Int → Prop
  | .nanoseconds _ _, x => IntType.int64.InRange x
  | .trivial rep, x => rep.InRange x

instance (d : DurationType) (x : Int) : Decidable (d.InRange x) :=
  match d with
  | .nanoseconds _ _ => inferInstanceAs (Decidable (IntType.int64.InRange x))
  | .trivial rep => inferInstanceAs (Decidable (rep.InRange x))

/-- A count read in the duration's own representation is one of its counts. -/
theorem DurationType.cast_inRange (rep : IntType) (x : Int) :
    DurationType.InRange (.trivial rep) (rep.cast x) :=
  rep.cast_inRange x

/-- `std::chrono::milliseconds`. -/
def DurationType.milliseconds : DurationType := .nanoseconds 1000 (by decide)

/-- The types with dump support.  `std::variant<Args...>` is given by its alternatives in
order. -/
inductive DumpType where
  | integer (t : IntType)
  | enumeration (underlying : IntType)
  | bool
  | string
  | duration (d : DurationType)
  | timePoint (d : DurationType)
  | decimal (prec : Nat) (rp : Decimal64.RoundPolicy)
  | pair (first second : DumpType)
  | optional (t : DumpType)
  | uniquePtr (t : DumpType)
  | sharedPtr (t : DumpType)
  | strongTypedef (t : DumpType)
  | variant (count : Nat) (few : count ≤ 2 ^ 64) (alternatives : Fin count → DumpType)
  | container (item : DumpType)

/-- The values of a type: a null pointer is `none`; a `std::variant` holds the index of an
alternative and a value of it; a string or a container has fewer than `2^64` elements. -/
def DumpType.Value : DumpType → Type
  | .integer t => {x : Int // t.InRange x}
  | .enumeration t => {x : Int // t.InRange x}
  | .bool => Bool
  | .string => {s : List UInt8 // s.length < 2 ^ 64}
  | .duration d => {x : Int // d.InRange x}
  | .timePoint d => {x : Int // d.InRange x}
  | .decimal prec rp => Decimal64.Decimal prec rp
  | .pair a b => a.Value × b.Value
  | .optional t => Option t.Value
  | .uniquePtr t => Option t.Value
  | .sharedPtr t => Option t.Value
  | .strongTypedef t => t.Value
  | .variant count _ alternatives => (i : Fin count) × (alternatives i).Value
  | .container t => {vs : List t.Value // vs.length < 2 ^ 64}

/-! ## Writing -/

/-- `Write(writer, bool)`: a `std::uint8_t` of `1` or `0`. -/
def writeBool (b : Bool) : List UInt8 := writeInt IntType.uint8 (if b then 1 else 0)

/-- `Write(writer, std::chrono::duration)`.  For a duration dumped as nanoseconds,
`duration_cast<nanoseconds>` multiplies the count in `int64_t`; the check against the value
converts the value to nanoseconds with the same product, so it cannot fail. -/
def writeDuration : DurationType → Int → Except DumpError (List UInt8)
  | .nanoseconds den _, count => do
    let nanos := count * nanosPerTick den
    if ¬IntType.int64.InRange nanos then throw .signedOverflow
    if nanos ≠ count * nanosPerTick den then throw .hugeDuration
    pure (writeTrivial 8 (IntType.uint64.cast nanos).toNat)
  | .trivial rep, count =>
    pure (writeTrivial rep.size (count % 2 ^ (8 * rep.size)).toNat)

/-- `writer.Write(value)` for a value of the type. -/
def write : (t : DumpType) → t.Value → Except DumpError (List UInt8)
  | .integer it, x => pure (writeInt it x.1)
  | .enumeration it, x => pure (writeInt it x.1)
  | .bool, b => pure (writeBool b)
  | .string, (s : {s : List UInt8 // s.length < 2 ^ 64}) =>
    pure (writeInt IntType.uint64 s.1.length ++ s.1)
  | .duration d, x => writeDuration d x.1
  | .timePoint d, x => writeDuration d x.1
  | .decimal _ _, (dec : Decimal64.Decimal _ _) =>
    pure (writeInt IntType.int64 dec.unbiased)
  | .pair a b, (v : a.Value × b.Value) => do pure ((← write a v.1) ++ (← write b v.2))
  | .optional _, none => pure (writeBool false)
  | .optional t, some v => do pure (writeBool true ++ (← write t v))
  | .uniquePtr _, none => pure (writeBool false)
  | .uniquePtr t, some v => do pure (writeBool true ++ (← write t v))
  | .sharedPtr _, none => pure (writeBool false)
  | .sharedPtr t, some v => do pure (writeBool true ++ (← write t v))
  | .strongTypedef t, v => write t v
  | .variant _ _ alternatives, (v : (i : Fin _) × (alternatives i).Value) => do
    -- `value.index()`, then the held alternative through `std::visit`
    pure (writeInt IntType.uint64 v.1 ++ (← write (alternatives v.1) v.2))
  | .container t, (vs : {vs : List t.Value // vs.length < 2 ^ 64}) => do
    pure (writeInt IntType.uint64 vs.1.length ++ (← writeMany (write t) vs.1))

/-! ## Reading -/

/-- A `std::size_t` read back bounds the length of what follows it. -/
theorem toNat_lt_of_uint64 (size : {x : Int // IntType.uint64.InRange x}) :
    size.1.toNat < 2 ^ 64 := by
  obtain ⟨x, hlo, hhi⟩ := size
  rw [show IntType.uint64.max = 2 ^ 64 - 1 from rfl] at hhi
  dsimp only
  omega

/-- `Read(reader, To<bool>)`: a `std::uint8_t` that must be `0` or `1`. -/
def readBool : Reader Bool := do
  let byte ← readInt IntType.uint8
  if byte.1 ≠ 0 ∧ byte.1 ≠ 1 then throw .invalidBool
  pure (byte.1 ≠ 0)

/-- The quotient of an `int64_t` by a positive number is an `int64_t`. -/
theorem int64_tdiv_inRange {x : Int} (hx : IntType.int64.InRange x) (f : Nat) :
    IntType.int64.InRange (x.tdiv f) := by
  have hlow : IntType.int64.lowest = -2 ^ 63 := rfl
  have hmax : IntType.int64.max = 2 ^ 63 - 1 := rfl
  obtain ⟨hlo, hhi⟩ := hx
  unfold IntType.InRange
  rw [hlow, hmax] at *
  rcases Int.le_total 0 x with h | h
  · -- a non-negative count shrinks
    have h1 := Int.tdiv_nonneg h (Int.natCast_nonneg f)
    have h2 := Int.tdiv_le_self (f : Int) h
    omega
  · -- a negative one keeps its sign and shrinks in absolute value
    have h1 := Int.natAbs_tdiv_le_natAbs x f
    have h2 : x.tdiv f ≤ 0 := by
      rw [← Int.neg_neg x, Int.neg_tdiv]
      exact Int.neg_nonpos_of_nonneg (Int.tdiv_nonneg (by omega) (Int.natCast_nonneg f))
    omega

/-- `Read(reader, To<std::chrono::duration>)`: a duration dumped as nanoseconds is
`duration_cast` back, a truncating division. -/
def readDuration : (d : DurationType) → Reader {x : Int // d.InRange x}
  | .nanoseconds den _ => do
    let raw ← readTrivial 8
    let count := IntType.int64.cast raw
    pure ⟨count.tdiv (nanosPerTick den),
      int64_tdiv_inRange (IntType.int64.cast_inRange raw) (nanosPerTick den)⟩
  | .trivial rep => do
    let raw ← readTrivial rep.size
    pure ⟨rep.cast raw, DurationType.cast_inRange rep raw⟩

/-- `Read` of `std::optional`, `std::unique_ptr` and `std::shared_ptr`: a `bool`, then the value
if it is `true`. -/
def readOptional {α : Type} (readValue : Reader α) : Reader (Option α) := do
  if !(← readBool) then pure none
  else some <$> readValue

/-- `Read(reader, To<std::string>)`: `ReadStringViewUnsafe(reader)`, a size and then as many
bytes. -/
def readString : Reader {s : List UInt8 // s.length < 2 ^ 64} := do
  let size ← readInt IntType.uint64
  let bytes ← readStringViewUnsafe size.1.toNat
  pure ⟨bytes.1, by rw [bytes.2]; exact toNat_lt_of_uint64 size⟩

/-- `Read(reader, To<Container>)`: a size, then as many items inserted in order. -/
def readContainer {α : Type} (readItem : Reader α) : Reader {vs : List α // vs.length < 2 ^ 64} := do
  let size ← readInt IntType.uint64
  let items ← readMany readItem size.1.toNat
  pure ⟨items.1, by rw [items.2]; exact toNat_lt_of_uint64 size⟩

/-- `impl::ReadVariant`: the alternative of the given index. -/
def readAlternative {count : Nat} {β : Fin count → Type} (readOf : (i : Fin count) → Reader (β i))
    (index : Nat) : Reader ((i : Fin count) × β i) :=
  if h : index < count then (fun v => ⟨⟨index, h⟩, v⟩) <$> readOf ⟨index, h⟩
  else throw (.invalidVariantIndex index)

/-- `Read(reader, To<std::variant>)` over `count` alternatives: the index, checked, then the
alternative of that index. -/
def readVariant {count : Nat} {β : Fin count → Type} (readOf : (i : Fin count) → Reader (β i)) :
    Reader ((i : Fin count) × β i) := do
  let index ← readInt IntType.uint64
  if index.1.toNat ≥ count then throw (.invalidVariantIndex index.1.toNat)
  readAlternative readOf index.1.toNat

/-- `reader.Read<T>()` for the type. -/
def read : (t : DumpType) → Reader t.Value
  | .integer it => readInt it
  | .enumeration it => readInt it
  | .bool => readBool
  | .string => readString
  | .duration d => readDuration d
  | .timePoint d => readDuration d
  | .decimal prec rp => do
    let x ← readInt IntType.int64
    pure (Decimal64.Decimal.fromUnbiased x.1 : Decimal64.Decimal prec rp)
  | .pair a b => show Reader (a.Value × b.Value) from do
    let first ← read a
    let second ← read b
    pure (first, second)
  | .optional t => readOptional (read t)
  | .uniquePtr t => readOptional (read t)
  | .sharedPtr t => readOptional (read t)
  | .strongTypedef t => read t
  | .variant _ _ alternatives => readVariant fun i => read (alternatives i)
  | .container t => readContainer (read t)

end Dump

end Userver
