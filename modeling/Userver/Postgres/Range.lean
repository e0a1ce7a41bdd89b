import Mathlib.Data.List.Basic

/-!
# PostgreSQL ranges: `storages::postgres::Range<T>` and its binary I/O

`Range<T>` (`range_types.hpp`) holds an optional `RangeData`: no data is the empty range, and
the data are two optional bounds and the flags saying which bounds are included.  The data
constructor throws when both bounds are there and the upper one is below the lower one, so every
`RangeData` has its bounds in order (`RangeData.ordered`).  The constructor from two values
makes the range empty when they are equal and not both included; no constructor does more.

`operator==` compares two ranges bound by bound (`BoundEqual`): for an integral `T` a bound
included at `v` equals one excluded at `v - 1` (lower) or `v + 1` (upper).  `RangeBinaryFormatter`
writes the `RangeFlag` byte and the bounds there are; `RangeBinaryParser` reads them back.  The
element types of `IntegerRange` and `BigintRange`, `Integer` and `Bigint`, are integral, so the
model takes the integral branch of `BoundEqual`.

* `rangeBinaryParser_formatter`: the parser reads every range back from what the formatter
  writes, as a range equal to it.
* `bounded_open_unit_ne_empty`: `Range(a, a + 1, RangeBound::kNone)` holds no integer, yet it is
  not equal to the empty range `Range()`: the constructor does not make it empty.
-/

namespace Userver

namespace Postgres

/-- The side a `RangeBounds` argument names: `RangeBound::kLower` or `RangeBound::kUpper`. -/
inductive RangeSide where
  | kLower
  | kUpper
  deriving DecidableEq, Repr

/-- `RangeBounds`: the flags `kLower` (`0x01`) and `kUpper` (`0x02`), which bounds are included. -/
structure RangeBounds where
  lower : Bool
  upper : Bool
  deriving DecidableEq, Repr

namespace RangeBounds

def kNone : RangeBounds := ⟨false, false⟩
def kLower : RangeBounds := ⟨true, false⟩
def kUpper : RangeBounds := ⟨false, true⟩
def kBoth : RangeBounds := ⟨true, true⟩

/-- `bounds & side`. -/
def has (bounds : RangeBounds) : RangeSide → Bool
  | .kLower => bounds.lower
  | .kUpper => bounds.upper

end RangeBounds

/-- The exceptions of this file: `LogicError("Range lower bound is greater than upper")` of the
`RangeData` constructor, and a read past the end of the buffer. -/
inductive RangeError where
  | lowerGreaterThanUpper
  | bufferUnderflow
  deriving DecidableEq, Repr

variable {T : Type}

/-- `Range<T>::RangeData`, with the order of its bounds that its constructor checks. -/
structure RangeData (T : Type) [LT T] where
  bounds : RangeBounds
  lower : Option T
  upper : Option T
  ordered : ∀ l u, lower = some l → upper = some u → ¬u < l

/-- `Range<T>`: `data_`, none for the empty range. -/
structure Range (T : Type) [LT T] where
  data : Option (RangeData T)

namespace RangeData

variable [LT T] [DecidableLT T]

/-- The constructor `RangeData(low, up, bounds)`: it throws when the upper bound is below the
lower one. -/
def make (low up : Option T) (bounds : RangeBounds) : Except RangeError (RangeData T) :=
  match low, up with
  | some l, some u =>
    if h : u < l then .error .lowerGreaterThanUpper
    else .ok ⟨bounds, some l, some u, fun _ _ hl hu => by cases hl; cases hu; exact h⟩
  | none, up => .ok ⟨bounds, none, up, fun _ _ hl => by cases hl⟩
  | some l, none => .ok ⟨bounds, some l, none, fun _ _ _ hu => by cases hu⟩

/-- The data constructor accepts the bounds of any data, whatever the flags. -/
theorem make_of_ordered (d : RangeData T) (bounds : RangeBounds) :
    RangeData.make d.lower d.upper bounds = .ok ⟨bounds, d.lower, d.upper, d.ordered⟩ := by
  obtain ⟨b, lower, upper, hord⟩ := d
  cases lower with
  | none => rfl
  | some l =>
    cases upper with
    | none => rfl
    | some u => simp [RangeData.make, hord l u rfl rfl]

/-- The unbounded `RangeData()`. -/
def unbounded : RangeData T := ⟨RangeBounds.kNone, none, none, fun _ _ hl => by cases hl⟩

/-- `GetOptionalValue(side)`. -/
def getOptionalValue (d : RangeData T) : RangeSide → Option T
  | .kLower => d.lower
  | .kUpper => d.upper

/-- `HasBound(side)`. -/
def hasBound (d : RangeData T) (side : RangeSide) : Bool := (d.getOptionalValue side).isSome

/-- `IsBoundIncluded(side)`. -/
def isBoundIncluded (d : RangeData T) (side : RangeSide) : Bool :=
  d.hasBound side && d.bounds.has side

variable [DecidableEq T] [Add T] [Neg T] [OfNat T 1]

/-- `BoundEqual(rhs, side)` for an integral `T`: two bounds there with the same inclusion are
equal when their values are; otherwise the included one must be one step inside the other. -/
def boundEqual (d rhs : RangeData T) (side : RangeSide) : Bool :=
  match d.getOptionalValue side, rhs.getOptionalValue side with
  | none, none => true
  | some lval, some rval =>
    if d.bounds.has side = rhs.bounds.has side then lval = rval
    else
      let diff : T := match side with
        | .kLower => 1
        | .kUpper => -1
      if d.isBoundIncluded side then lval = rval + diff else lval + diff = rval
  | _, _ => false

/-- `RangeData::operator==`. -/
def beq (d rhs : RangeData T) : Bool := d.boundEqual rhs .kLower && d.boundEqual rhs .kUpper

omit [DecidableLT T] in
/-- Two bounds with the same value, and the same inclusion when they are there, are equal. -/
theorem boundEqual_of_same {d d' : RangeData T} {side : RangeSide}
    (hvalue : d.getOptionalValue side = d'.getOptionalValue side)
    (hincl : (d.getOptionalValue side).isSome → d.bounds.has side = d'.bounds.has side) :
    d.boundEqual d' side = true := by
  unfold RangeData.boundEqual
  rw [← hvalue]
  cases hopt : d.getOptionalValue side with
  | none => rfl
  | some v =>
    rw [hopt] at hincl
    simp [hincl rfl]

end RangeData

namespace Range

variable [LT T] [DecidableLT T]

/-! ## The constructors -/

/-- `Range()`: the empty range. -/
def empty : Range T := ⟨none⟩

/-- `Range(kUnbounded, kUnbounded)`. -/
def unbounded : Range T := ⟨some RangeData.unbounded⟩

/-- `Range(const OptionalValue& lower, const OptionalValue& upper, RangeBounds bounds)`. -/
def ofOptionals (lower upper : Option T) (bounds : RangeBounds) : Except RangeError (Range T) :=
  (fun d => ⟨some d⟩) <$> RangeData.make lower upper bounds

/-- `Range(lower, kUnbounded, bounds)`; `bounds` defaults to `kLower`. -/
def withLower (lower : T) (bounds : RangeBounds) : Range T :=
  ⟨some ⟨bounds, some lower, none, fun _ _ _ hu => by cases hu⟩⟩

/-- `Range(kUnbounded, upper, bounds)`; `bounds` defaults to `kNone`. -/
def withUpper (upper : T) (bounds : RangeBounds) : Range T :=
  ⟨some ⟨bounds, none, some upper, fun _ _ hl => by cases hl⟩⟩

/-- `Range(lower, upper, bounds)`; `bounds` defaults to `kLower`.  Equal values not both
included make the range empty. -/
def bounded [DecidableEq T] (lower upper : T) (bounds : RangeBounds) :
    Except RangeError (Range T) := do
  let d ← RangeData.make (some lower) (some upper) bounds
  if lower = upper ∧ bounds ≠ RangeBounds.kBoth then pure ⟨none⟩ else pure ⟨some d⟩

/-- `Range(const Range<U>& rhs)`: each bound converted, through the `RangeData` constructor. -/
def convert {U : Type} [LT U] (f : U → T) (rhs : Range U) : Except RangeError (Range T) :=
  match rhs.data with
  | none => .ok ⟨none⟩
  | some d => ofOptionals (d.lower.map f) (d.upper.map f) d.bounds

/-! ## The accessors -/

/-- `Empty()`. -/
def isEmpty (r : Range T) : Bool := r.data.isNone

/-- `HasLowerBound()` and `HasUpperBound()`. -/
def hasBound (r : Range T) (side : RangeSide) : Bool := r.data.any (·.hasBound side)

/-- `IsLowerBoundIncluded()` and `IsUpperBoundIncluded()`. -/
def isBoundIncluded (r : Range T) (side : RangeSide) : Bool := r.data.any (·.isBoundIncluded side)

/-- `GetLowerBound()` and `GetUpperBound()`. -/
def getBound (r : Range T) (side : RangeSide) : Option T := r.data.bind (·.getOptionalValue side)

/-- `operator==`: both empty, or equal data. -/
def beq [DecidableEq T] [Add T] [Neg T] [OfNat T 1] (r rhs : Range T) : Bool :=
  (r.isEmpty && rhs.isEmpty) ||
    match r.data, rhs.data with
    | some d, some d' => d.beq d'
    | none, none => true
    | _, _ => false

/-- The values of `T` the range holds. -/
def contains [LE T] [DecidableLE T] (r : Range T) (x : T) : Bool :=
  match r.data with
  | none => false
  | some d =>
    (match d.lower with
      | none => true
      | some l => if d.bounds.lower then decide (l ≤ x) else decide (l < x)) &&
    (match d.upper with
      | none => true
      | some u => if d.bounds.upper then decide (x ≤ u) else decide (x < u))

end Range

/-! ## Binary I/O -/

/-- The `RangeFlag` bits of the wire format. -/
def RangeFlag.kEmpty : UInt8 := 0x01
def RangeFlag.kLowerBoundInclusive : UInt8 := 0x02
def RangeFlag.kUpperBoundInclusive : UInt8 := 0x04
def RangeFlag.kLowerBoundInfinity : UInt8 := 0x08
def RangeFlag.kUpperBoundInfinity : UInt8 := 0x10
def RangeFlag.kLowerBoundNull : UInt8 := 0x20
def RangeFlag.kUpperBoundNull : UInt8 := 0x40

/-- A binary range value: the flags byte and the element buffers after it, in order. -/
structure RangeWire (T : Type) where
  flags : UInt8
  elements : List T
  deriving DecidableEq, Repr

/-- `HasLowerBound(flags)`: not empty, not null, not infinite below. -/
def hasLowerBoundFlag (flags : UInt8) : Bool :=
  flags &&& (RangeFlag.kEmpty ||| RangeFlag.kLowerBoundNull ||| RangeFlag.kLowerBoundInfinity) = 0

/-- `HasUpperBound(flags)`. -/
def hasUpperBoundFlag (flags : UInt8) : Bool :=
  flags &&& (RangeFlag.kEmpty ||| RangeFlag.kUpperBoundNull ||| RangeFlag.kUpperBoundInfinity) = 0

/-- The flags byte of a non-empty range, for every presence and inclusion of its bounds: it is
not `kEmpty`, and the parser reads each presence and inclusion back from it. -/
theorem wireFlags_spec (p i q j : Bool) :
    let flags : UInt8 :=
      (if !p then RangeFlag.kLowerBoundInfinity else if i then RangeFlag.kLowerBoundInclusive
        else 0) |||
      (if !q then RangeFlag.kUpperBoundInfinity else if j then RangeFlag.kUpperBoundInclusive
        else 0)
    flags ≠ RangeFlag.kEmpty ∧ hasLowerBoundFlag flags = p ∧
      (hasLowerBoundFlag flags && flags &&& RangeFlag.kLowerBoundInclusive != 0) = (p && i) ∧
      hasUpperBoundFlag flags = q ∧
      (hasUpperBoundFlag flags && flags &&& RangeFlag.kUpperBoundInclusive != 0) = (q && j) := by
  revert p i q j
  decide

/-- `buffer.ReadRaw` of a bound that is there, or nothing. -/
def readBound (present : Bool) (elements : List T) : Except RangeError (Option T × List T) :=
  if present then
    match elements with
    | [] => .error .bufferUnderflow
    | x :: rest => .ok (some x, rest)
  else .ok (none, elements)

theorem readBound_toList (x : Option T) (rest : List T) :
    readBound x.isSome (x.toList ++ rest) = .ok (x, rest) := by
  cases x <;> rfl

variable [LT T]

/-- The flags of one side of a non-empty range, as `RangeBinaryFormatter` marks them. -/
def sideFlags (r : Range T) (side : RangeSide) (infinity inclusive : UInt8) : UInt8 :=
  if !r.hasBound side then infinity else if r.isBoundIncluded side then inclusive else 0

/-- `RangeBinaryFormatter`. -/
def rangeBinaryFormatter (r : Range T) : RangeWire T :=
  if r.isEmpty then ⟨RangeFlag.kEmpty, []⟩
  else
    ⟨sideFlags r .kLower RangeFlag.kLowerBoundInfinity RangeFlag.kLowerBoundInclusive |||
        sideFlags r .kUpper RangeFlag.kUpperBoundInfinity RangeFlag.kUpperBoundInclusive,
      (r.getBound .kLower).toList ++ (r.getBound .kUpper).toList⟩

/-- The flags the formatter writes for a range with data. -/
theorem rangeBinaryFormatter_flags (d : RangeData T) :
    let flags : UInt8 := (rangeBinaryFormatter (⟨some d⟩ : Range T)).flags
    flags ≠ RangeFlag.kEmpty ∧ hasLowerBoundFlag flags = d.lower.isSome ∧
      (hasLowerBoundFlag flags && flags &&& RangeFlag.kLowerBoundInclusive != 0) =
        (d.lower.isSome && (d.lower.isSome && d.bounds.lower)) ∧
      hasUpperBoundFlag flags = d.upper.isSome ∧
      (hasUpperBoundFlag flags && flags &&& RangeFlag.kUpperBoundInclusive != 0) =
        (d.upper.isSome && (d.upper.isSome && d.bounds.upper)) :=
  wireFlags_spec d.lower.isSome (d.lower.isSome && d.bounds.lower) d.upper.isSome
    (d.upper.isSome && d.bounds.upper)

variable [DecidableLT T]

/-- `RangeBinaryParser`: the empty range for the flags `kEmpty` alone; otherwise the bounds the
flags announce, included as they say, through the optional-bounds constructor. -/
def rangeBinaryParser (wire : RangeWire T) : Except RangeError (Range T) :=
  if wire.flags = RangeFlag.kEmpty then .ok Range.empty
  else do
    let bounds : RangeBounds :=
      ⟨hasLowerBoundFlag wire.flags && wire.flags &&& RangeFlag.kLowerBoundInclusive != 0,
        hasUpperBoundFlag wire.flags && wire.flags &&& RangeFlag.kUpperBoundInclusive != 0⟩
    let (lower, rest) ← readBound (hasLowerBoundFlag wire.flags) wire.elements
    let (upper, _) ← readBound (hasUpperBoundFlag wire.flags) rest
    Range.ofOptionals lower upper bounds

/-- The parser on flags that are not `kEmpty`: the bounds they announce, through the
optional-bounds constructor. -/
theorem rangeBinaryParser_of_flags {flags : UInt8} (lower upper : Option T) {il iu : Bool}
    (hne : flags ≠ RangeFlag.kEmpty) (hl : hasLowerBoundFlag flags = lower.isSome)
    (hli : (hasLowerBoundFlag flags && flags &&& RangeFlag.kLowerBoundInclusive != 0) = il)
    (hu : hasUpperBoundFlag flags = upper.isSome)
    (hui : (hasUpperBoundFlag flags && flags &&& RangeFlag.kUpperBoundInclusive != 0) = iu) :
    rangeBinaryParser ⟨flags, lower.toList ++ upper.toList⟩ =
      Range.ofOptionals lower upper ⟨il, iu⟩ := by
  rw [rangeBinaryParser, if_neg hne]
  dsimp only
  rw [hli, hui, hl, readBound_toList]
  dsimp only [bind, Except.bind]
  rw [hu, ← List.append_nil upper.toList, readBound_toList]

/-! ## The formatter's output is read back -/

section RoundTrip

variable [DecidableEq T] [Add T] [Neg T] [OfNat T 1]

/-- `RangeBinaryParser(RangeBinaryFormatter(r)) == r`. -/
theorem rangeBinaryParser_formatter (r : Range T) :
    ∃ r', rangeBinaryParser (rangeBinaryFormatter r) = .ok r' ∧ r'.beq r = true := by
  rcases r with ⟨_ | d⟩
  · exact ⟨Range.empty, rfl, rfl⟩
  · -- a range with data: the flags carry which bounds are there and which are included
    obtain ⟨hne, hlower, hlowerIncl, hupper, hupperIncl⟩ := rangeBinaryFormatter_flags d
    have hformat : rangeBinaryFormatter (⟨some d⟩ : Range T) =
        ⟨(rangeBinaryFormatter (⟨some d⟩ : Range T)).flags, d.lower.toList ++ d.upper.toList⟩ :=
      rfl
    let bounds : RangeBounds :=
      ⟨d.lower.isSome && (d.lower.isSome && d.bounds.lower),
        d.upper.isSome && (d.upper.isSome && d.bounds.upper)⟩
    refine ⟨⟨some ⟨bounds, d.lower, d.upper, d.ordered⟩⟩, ?_, ?_⟩
    · rw [hformat, rangeBinaryParser_of_flags d.lower d.upper hne hlower hlowerIncl hupper
        hupperIncl, Range.ofOptionals, RangeData.make_of_ordered]
      rfl
    · -- each bound is there in both or in neither, with the same inclusion
      have hside : ∀ side, (⟨bounds, d.lower, d.upper, d.ordered⟩ : RangeData T).boundEqual d side =
          true := by
        intro side
        apply RangeData.boundEqual_of_same
        · cases side <;> rfl
        · intro hsome
          cases side
          · simp only [RangeData.getOptionalValue] at hsome
            simp [bounds, RangeBounds.has, hsome]
          · simp only [RangeData.getOptionalValue] at hsome
            simp [bounds, RangeBounds.has, hsome]
      simp [Range.beq, Range.isEmpty, RangeData.beq, hside]

end RoundTrip

/-! ## A range with no value that is not `Range()` -/

/-- `Range(a, a + 1, RangeBound::kNone)` of `Integer` values holds no value, as `Range()` holds
none, yet the two are not equal. -/
theorem bounded_open_unit_ne_empty (a : Int32) (ha : a < Int32.maxValue) :
    ∃ r, Range.bounded a (a + 1) RangeBounds.kNone = .ok r ∧ (∀ x, r.contains x = false) ∧
      (∀ x, (Range.empty : Range Int32).contains x = false) ∧ r.beq Range.empty = false := by
  -- `a + 1` does not wrap, so the bounds are in order and differ
  have hnot : ¬a + 1 < a := by grind
  have hne : a ≠ a + 1 := by grind
  refine ⟨⟨some ⟨RangeBounds.kNone, some a, some (a + 1), fun _ _ hl hu => by
    cases hl; cases hu; exact hnot⟩⟩, ?_, ?_, fun _ => rfl, rfl⟩
  · simp [Range.bounded, RangeData.make, hnot, hne]
  · intro x
    simp only [Range.contains, RangeBounds.kNone, Bool.false_eq_true, if_false,
      Bool.and_eq_false_iff, decide_eq_false_iff_not]
    grind

/-- `Range(5, 6, RangeBound::kNone)`. -/
theorem bounded_open_unit_ne_empty_five :
    (5 : Int32) < Int32.maxValue ∧
      ∃ r : Range Int32, Range.bounded 5 (5 + 1) RangeBounds.kNone = .ok r ∧
        (∀ x, r.contains x = false) ∧ (∀ x, (Range.empty : Range Int32).contains x = false) ∧
        r.beq Range.empty = false :=
  ⟨by decide, bounded_open_unit_ne_empty 5 (by decide)⟩

end Postgres

end Userver
