import Userver.Lib.Search
import Userver.Lib.Lanes

/-!
# Histograms

A histogram (`histogram.cpp`) keeps an array of buckets: bucket `i + 1` counts the values at most
its upper bound and above the previous one, bucket `0` those above every bound.  The portable
accounting (`impl::histogram::MutableView::Account`) finds the bucket with `upper_bound` over the
bounds, comparing with `<=`.  `Histogram` accelerates this for at most `kMaxBPlusBounds` bounds:
`UpdateBounds` copies the bounds, as `float`, into a B+ tree of two layers of eight-lane blocks
(padded with the largest bound), and `Histogram::Account` descends it with one SIMD comparison
per layer (`LeastGreaterEqualIndex`).

Doubles are a type `α` and floats a type `β`, with `toFloat` the conversion; their `≤` is only
assumed transitive, as IEEE comparison is (a NaN compares false with everything).

* `Histogram.BoundsBuilt`: the tree is the one `UpdateBounds` builds of the bounds; the
  constructor establishes it (`ofBounds_boundsBuilt`) and every run of operations keeps it
  (`applyAll_boundsBuilt`).
* `leastGreaterEqualIndex_isFirst`: each comparison finds the first lane at least the value,
  whichever instruction set computes its mask.
* `bucketIndex_eq_account`: on a built tree over sorted bounds, where converting to `float`
  keeps the comparisons with the value, `Histogram::Account` chooses the bucket `upper_bound` does,
  so that it leaves the buckets as `MutableView::Account` does
  (`account_eq_mutableView_account`).
-/

namespace Userver

namespace Utils

namespace Statistics

open Search Lanes

/-- `kBlockSize`: the lanes of one SIMD comparison. -/
def kBlockSize : Nat := 8

/-- `kBlockWays`: the ways out of a block. -/
def kBlockWays : Nat := kBlockSize + 1

/-- `kBlockLayers`. -/
def kBlockLayers : Nat := 2

/-- `kBlocksCount`: one block in the first layer, one per way of it in the second. -/
def kBlocksCount : Nat := 1 + kBlockWays

/-- `kMaxBPlusBounds`. -/
def kMaxBPlusBounds : Nat := kBlocksCount * kBlockSize

/-! ## The bucket array -/

/-- `impl::histogram::Bucket` without its `upper_bound` (which `MutableView` keeps apart). -/
structure Bucket (α : Type) where
  counter : UInt64
  sum : α

/-- The bucket array an `impl::histogram::MutableView` points to: `bounds[i]` is the
`upper_bound` of bucket `i + 1`, and bucket `0`, whose `upper_bound` holds the size, counts the
values above every bound. -/
structure MutableView (α : Type) where
  bounds : List α
  buckets : List (Bucket α)
  length_buckets : buckets.length = bounds.length + 1

section View

variable {α : Type} [LE α] [DecidableLE α] [Zero α] [Add α] [Mul α] [NatCast α]

/-- `bucket.counter.fetch_add(count)` and `AddAtomic(bucket.sum, value * count)` on the bucket
at `index`. -/
def MutableView.addAt (v : MutableView α) (index : Nat) (value : α) (count : UInt64) :
    MutableView α where
  bounds := v.bounds
  buckets := v.buckets.modify index fun bucket =>
    { counter := bucket.counter + count, sum := bucket.sum + value * (count.toNat : α) }
  length_buckets := by rw [List.length_modify, v.length_buckets]

/-- The bucket of `MutableView::Account`: `upper_bound(bounds, value, less_equal)` picks the
first bound at least `value`; past the end it is the bucket at infinity. -/
def MutableView.bucketIndex (v : MutableView α) (value : α) : Nat :=
  let iter := upperBound (fun i => decide (value ≤ v.bounds.getD i 0)) 0 v.bounds.length
  if iter = v.bounds.length then 0 else iter + 1

/-- `MutableView::Account`. -/
def MutableView.account (v : MutableView α) (value : α) (count : UInt64) : MutableView α :=
  v.addAt (v.bucketIndex value) value count

/-- `MutableView::Reset`. -/
def MutableView.reset (v : MutableView α) : MutableView α where
  bounds := v.bounds
  buckets := v.buckets.map fun _ => { counter := 0, sum := 0 }
  length_buckets := by rw [List.length_map, v.length_buckets]

end View

/-! ## The B+ tree -/

/-- `impl::histogram::BoundsBlock`: eight `float` bounds, compared at once. -/
structure BoundsBlock (β : Type) where
  data : List β
  length_data : data.length = kBlockSize

/-- A block as `BoundsBlock{}` leaves it: zeros. -/
instance {β : Type} [Zero β] : Inhabited (BoundsBlock β) :=
  ⟨⟨List.replicate kBlockSize 0, List.length_replicate⟩⟩

/-- The instruction set `LeastGreaterEqualIndex` is compiled for. -/
inductive Simd where
  | avx2
  | sse2
  | none
  deriving DecidableEq, Repr

section Tree

variable {β : Type} [LE β] [DecidableLE β] [Zero β]

/-- `width` lanes of `_mm*_cmp*_ps(set1(value), load(&block.data[offset]), <=)`. -/
def lessEqualLanes (block : BoundsBlock β) (value : β) (offset width : Nat) : List Bool :=
  (List.range width).map fun i => decide (value ≤ block.data.getD (offset + i) 0)

/-- The mask of the comparison: one `_mm256_movemask_ps`, two `_mm_movemask_ps` of four lanes,
or the portable loop `mask |= (value <= block.data[i]) << i`. -/
def leastGreaterEqualMask (simd : Simd) (block : BoundsBlock β) (value : β) : Nat :=
  match simd with
  | .avx2 => maskOf (lessEqualLanes block value 0 kBlockSize)
  | .sse2 =>
    let mask1 := maskOf (lessEqualLanes block value 0 4)
    let mask2 := maskOf (lessEqualLanes block value 4 4)
    mask1 ||| mask2 <<< 4
  | .none =>
    (List.range kBlockSize).foldl
      (fun mask i => mask ||| (decide (value ≤ block.data.getD i 0)).toNat <<< i) 0

/-- `LeastGreaterEqualIndex(block, value)`: the first lane at least `value`, or `kBlockSize`. -/
def leastGreaterEqualIndex (simd : Simd) (block : BoundsBlock β) (value : β) : Nat :=
  ctz 32 (leastGreaterEqualMask simd block value ||| 1 <<< kBlockSize)

variable {α : Type} [Zero α] (toFloat : α → β)

/-- `get_upper_bound(i)` of `UpdateBounds`: the bounds, then `largest_bound` past them. -/
def getUpperBound (upperBounds : List α) (largestBound : α) (i : Nat) : α :=
  if i ≥ upperBounds.length then largestBound else upperBounds.getD i 0

/-- `largest_bound` of `UpdateBounds`: the last bound, or `0.0f` when there is none. -/
def largestBound (upperBounds : List α) : α :=
  if upperBounds.isEmpty then 0 else upperBounds.getD (upperBounds.length - 1) 0

/-- The blocks `UpdateBounds` fills: block `0` holds the bounds `(i + 1) * kBlockWays - 1`,
block `1 + i` the bounds `i * kBlockWays + (j + 1) - 1`. -/
def bPlusBlocks (upperBounds : List α) : List (BoundsBlock β) :=
  let get := getUpperBound upperBounds (largestBound upperBounds)
  ⟨(List.range kBlockSize).map fun i => toFloat (get ((i + 1) * kBlockWays - 1)),
      by rw [List.length_map, List.length_range]⟩ ::
    (List.range kBlockWays).map fun i =>
      ⟨(List.range kBlockSize).map fun j => toFloat (get (i * kBlockWays + (j + 1) - 1)),
        by rw [List.length_map, List.length_range]⟩

end Tree

/-! ## `Histogram` -/

/-- `utils::statistics::Histogram`: its buckets, and the B+ tree `bounds_` (empty while
`UpdateBounds` has not built it). -/
structure Histogram (α β : Type) where
  buckets : MutableView α
  bounds_ : List (BoundsBlock β)

section Histogram

variable {α β : Type} [LE α] [DecidableLE α] [Zero α] [Add α] [Mul α] [NatCast α]
variable [LE β] [DecidableLE β] [Zero β]
variable (toFloat : α → β) (isNormal : α → Bool)

/-- `Histogram::UpdateBounds`: nothing for more than `kMaxBPlusBounds` bounds; otherwise each
bound must be normal, and the tree is rebuilt. -/
def Histogram.updateBounds (h : Histogram α β) : Except String (Histogram α β) :=
  if h.buckets.bounds.length > kMaxBPlusBounds then .ok h
  else if !h.buckets.bounds.all isNormal then .error "Histogram bounds must fit in \x27float\x27"
  else .ok { h with bounds_ := bPlusBlocks toFloat h.buckets.bounds }

/-- The block index `Histogram::Account` reaches after its `kBlockLayers` comparisons. -/
def blockIndex (simd : Simd) (bounds_ : List (BoundsBlock β)) (value : β) : Nat :=
  (List.range kBlockLayers).foldl
    (fun blockIndex _ =>
      1 + blockIndex * kBlockWays + leastGreaterEqualIndex simd (bounds_.getD blockIndex default) value)
    0

/-- The bucket `Histogram::Account` adds to: `pre_bucket_index + 1`, or the bucket at infinity
past the last bound. -/
def bucketIndex (simd : Simd) (h : Histogram α β) (value : α) : Nat :=
  let preBucketIndex := blockIndex simd h.bounds_ (toFloat value) - kBlocksCount
  if preBucketIndex + 1 > h.buckets.bounds.length then 0 else preBucketIndex + 1

/-- `Histogram::Account`: `impl::histogram::Account` for more than `kMaxBPlusBounds` bounds,
otherwise a descent of the tree. -/
def Histogram.account (simd : Simd) (h : Histogram α β) (value : α) (count : UInt64) :
    Histogram α β :=
  if h.buckets.bounds.length > kMaxBPlusBounds then
    { h with buckets := h.buckets.account value count }
  else
    { h with buckets := h.buckets.addAt (bucketIndex toFloat simd h value) value count }

/-- `ResetMetric(histogram)`. -/
def Histogram.resetMetric (h : Histogram α β) : Histogram α β :=
  { h with buckets := h.buckets.reset }

/-- `IsBoundPositive`. -/
def isBoundPositive [LT α] [DecidableLT α] (x : α) : Bool :=
  isNormal x && decide (0 < x)

/-- The checks of `MutableView::SetBounds`: positive, sorted (`is_sorted`), no two adjacent
equal (`adjacent_find`), and a first bound that is not zero. -/
def checkSetBounds [LT α] [DecidableLT α] [BEq α] (upperBounds : List α) :
    Except String Unit :=
  if !upperBounds.all (isBoundPositive isNormal) then .error "Histogram bounds must be positive"
  else if (upperBounds.zip upperBounds.tail).any (fun p => decide (p.2 < p.1)) then
    .error "Histogram bounds must be sorted"
  else if (upperBounds.zip upperBounds.tail).any (fun p => p.1 == p.2) then
    .error "Histogram bounds must not contain duplicates"
  else if upperBounds.head?.any (· == 0) then .error "Histogram bounds must be positive"
  else .ok ()

/-- `Histogram(upper_bounds)`: zeroed buckets, `CopyBounds` (which checks the bounds), then
`UpdateBounds`. -/
def Histogram.ofBounds [LT α] [DecidableLT α] [BEq α] (upperBounds : List α) :
    Except String (Histogram α β) := do
  checkSetBounds isNormal upperBounds
  let buckets : MutableView α :=
    ⟨upperBounds, List.replicate (upperBounds.length + 1) ⟨0, 0⟩, List.length_replicate⟩
  Histogram.updateBounds toFloat isNormal { buckets, bounds_ := [] }

/-- What `bounds_` holds once `UpdateBounds` has run: the tree of the bounds, wherever there are
few enough bounds for the tree to be used. -/
def Histogram.BoundsBuilt (h : Histogram α β) : Prop :=
  h.buckets.bounds.length ≤ kMaxBPlusBounds → h.bounds_ = bPlusBlocks toFloat h.buckets.bounds

/-- The operations on a histogram after its construction. -/
inductive Op (α : Type) where
  | account (value : α) (count : UInt64)
  | resetMetric

/-- One operation. -/
def Histogram.apply (simd : Simd) (h : Histogram α β) : Op α → Histogram α β
  | .account value count => h.account toFloat simd value count
  | .resetMetric => h.resetMetric

/-- A sequence of operations. -/
def Histogram.applyAll (simd : Simd) (h : Histogram α β) (ops : List (Op α)) : Histogram α β :=
  ops.foldl (Histogram.apply toFloat simd) h

end Histogram

/-! ## The comparison of one block -/

section Lanes

variable {β : Type} [LE β] [DecidableLE β] [Zero β]

theorem lessEqualLanes_add (block : BoundsBlock β) (value : β) (offset w1 w2 : Nat) :
    lessEqualLanes block value offset (w1 + w2) =
      lessEqualLanes block value offset w1 ++ lessEqualLanes block value (offset + w1) w2 := by
  simp only [lessEqualLanes, List.range_add, List.map_append, List.map_map, Function.comp_def,
    Nat.add_assoc]

theorem length_lessEqualLanes (block : BoundsBlock β) (value : β) (offset width : Nat) :
    (lessEqualLanes block value offset width).length = width := by
  rw [lessEqualLanes, List.length_map, List.length_range]

/-- The three ways of computing the mask agree. -/
theorem leastGreaterEqualMask_eq (simd : Simd) (block : BoundsBlock β) (value : β) :
    leastGreaterEqualMask simd block value = maskOf (lessEqualLanes block value 0 kBlockSize) := by
  cases simd with
  | avx2 => rfl
  | sse2 =>
    -- the second `_mm_movemask_ps` covers the lanes from `block.data[4]` on
    rw [show kBlockSize = 4 + 4 from rfl, lessEqualLanes_add, maskOf_append_or,
      length_lessEqualLanes]
    rfl
  | none =>
    rw [leastGreaterEqualMask, foldl_or_shiftLeft]
    simp only [lessEqualLanes, Nat.zero_add]

/-- `LeastGreaterEqualIndex` finds the first lane at least the value, or `kBlockSize`. -/
theorem leastGreaterEqualIndex_isFirst (simd : Simd) (block : BoundsBlock β) (value : β) :
    IsFirst (fun j => decide (value ≤ block.data.getD j 0)) kBlockSize
      (leastGreaterEqualIndex simd block value) := by
  set lanes := lessEqualLanes block value 0 kBlockSize with hlanes
  have hlen : lanes.length = kBlockSize := length_lessEqualLanes block value 0 kBlockSize
  -- the bit `1 << kBlockSize` is a ninth lane that always holds
  have hmask : leastGreaterEqualMask simd block value ||| 1 <<< kBlockSize =
      maskOf (lanes ++ [true]) := by
    rw [leastGreaterEqualMask_eq, maskOf_append_or, hlen]
    rfl
  have hfirst := isFirst_findIdx id (lanes ++ [true]) false
  rw [List.length_append, hlen, List.length_singleton] at hfirst
  rw [leastGreaterEqualIndex, hmask,
    ctz_maskOf 32 _ (by rw [List.length_append, hlen]; decide) (by simp)]
  refine (hfirst.of_succ ?_).congr fun j hj => ?_
  · simp [hlen]
  · have hj' : j < lanes.length := by omega
    rw [id, List.getD_eq_getElem?_getD, List.getElem?_append_left hj', hlanes]
    simp [lessEqualLanes, hj]

end Lanes

/-! ## The tree `UpdateBounds` builds -/

section Tree

variable {α β : Type} [Zero α] [Zero β] (toFloat : α → β)

/-- With at least one bound, position `i` of the tree holds the bound at `i`, or the last. -/
theorem getUpperBound_eq_getD {bounds : List α} (h : bounds ≠ []) (i : Nat) :
    getUpperBound bounds (largestBound bounds) i = bounds.getD (min i (bounds.length - 1)) 0 := by
  have hpos : 0 < bounds.length := List.length_pos_iff.2 h
  unfold getUpperBound largestBound
  split
  · rw [if_neg (by simpa using h), min_eq_right (by omega)]
  · rw [min_eq_left (by omega)]

theorem getUpperBound_of_lt {bounds : List α} {i : Nat} (h : i < bounds.length) :
    getUpperBound bounds (largestBound bounds) i = bounds.getD i 0 := by
  rw [getUpperBound, if_neg (by omega)]

theorem sorted_getD_le [LE α] {bounds : List α} (hsorted : bounds.Pairwise (· ≤ ·)) {i j : Nat}
    (hij : i < j) (hj : j < bounds.length) : bounds.getD i 0 ≤ bounds.getD j 0 := by
  rw [List.getD_eq_getElem _ _ (by omega), List.getD_eq_getElem _ _ hj]
  exact List.pairwise_iff_getElem.1 hsorted i j (by omega) hj hij

/-- Block `0` holds the last position of each of the eight blocks after it. -/
theorem bPlusBlocks_root (bounds : List α) {k : Nat} (hk : k < kBlockSize) :
    ((bPlusBlocks toFloat bounds).getD 0 default).data.getD k 0 =
      toFloat (getUpperBound bounds (largestBound bounds) (kBlockWays * k + kBlockSize)) := by
  simp only [bPlusBlocks, List.getD_eq_getElem?_getD, List.getElem?_cons_zero, Option.getD_some,
    List.getElem?_map, List.getElem?_range hk, Option.map_some]
  congr 2
  simp only [kBlockWays, kBlockSize]
  omega

/-- Block `1 + l` holds the eight positions from `kBlockWays * l` on. -/
theorem bPlusBlocks_leaf (bounds : List α) {l j : Nat} (hl : l < kBlockWays)
    (hj : j < kBlockSize) :
    ((bPlusBlocks toFloat bounds).getD (1 + l) default).data.getD j 0 =
      toFloat (getUpperBound bounds (largestBound bounds) (kBlockWays * l + j)) := by
  rw [Nat.add_comm 1 l]
  simp only [bPlusBlocks, List.getD_eq_getElem?_getD, List.getElem?_cons_succ, List.getElem?_map,
    List.getElem?_range hl, Option.map_some, Option.getD_some, List.getElem?_range hj]
  congr 2
  simp only [kBlockWays, kBlockSize]
  omega

/-- Two comparisons lead to position `kBlockWays * l0 + l1` of the tree. -/
theorem blockIndex_sub_blocksCount [LE β] [DecidableLE β] (simd : Simd)
    (bounds_ : List (BoundsBlock β)) (value : β) :
    blockIndex simd bounds_ value - kBlocksCount =
      let l0 := leastGreaterEqualIndex simd (bounds_.getD 0 default) value
      kBlockWays * l0 + leastGreaterEqualIndex simd (bounds_.getD (1 + l0) default) value := by
  rw [blockIndex, show List.range kBlockLayers = [0, 1] from rfl]
  simp only [List.foldl_cons, List.foldl_nil, Nat.zero_mul, Nat.add_zero, kBlocksCount,
    kBlockWays, kBlockSize]
  omega

end Tree

/-! ## The descent agrees with `upper_bound` -/

section Account

variable {α β : Type} [LE α] [DecidableLE α] [IsTrans α (· ≤ ·)] [Zero α]
variable [LE β] [DecidableLE β] [Zero β] (toFloat : α → β)

/-- The comparisons of `upper_bound` never turn back from true to false. -/
theorem upward_bounds {bounds : List α} (hsorted : bounds.Pairwise (· ≤ ·)) (value : α) :
    Upward (fun i => decide (value ≤ bounds.getD i 0)) bounds.length := by
  intro i j hij hj hi
  simp only [decide_eq_true_eq] at hi ⊢
  rcases Nat.lt_or_eq_of_le hij with hlt | rfl
  · exact IsTrans.trans _ _ _ hi (sorted_getD_le hsorted hlt hj)
  · exact hi

omit [DecidableLE α] [Zero β] in
/-- Nor do those with the positions of the tree, padding included. -/
theorem upward_tree {bounds : List α} (hsorted : bounds.Pairwise (· ≤ ·)) (value : α)
    (hexact : ∀ b ∈ bounds, toFloat value ≤ toFloat b ↔ value ≤ b) :
    Upward (fun i => decide (toFloat value ≤
      toFloat (getUpperBound bounds (largestBound bounds) i))) kMaxBPlusBounds := by
  intro i j hij _ hi
  simp only [decide_eq_true_eq] at hi ⊢
  by_cases hne : bounds = []
  · -- no bounds: every position holds the same `0.0f`
    subst hne
    simpa [getUpperBound] using hi
  · have hpos : 0 < bounds.length := List.length_pos_iff.2 hne
    rw [getUpperBound_eq_getD hne] at hi ⊢
    rcases Nat.lt_or_eq_of_le (min_le_min_right (bounds.length - 1) hij) with hlt | heq
    · have hmem : ∀ k < bounds.length, bounds.getD k 0 ∈ bounds := fun k hk => by
        rw [List.getD_eq_getElem _ _ hk]
        exact List.getElem_mem hk
      rw [hexact _ (hmem _ (by omega))] at hi ⊢
      exact IsTrans.trans _ _ _ hi (sorted_getD_le hsorted hlt (by omega))
    · rwa [← heq]

/-- On a built tree over sorted bounds, where converting the value and the bounds to `float`
keeps their comparisons, `Histogram::Account` adds to the bucket `MutableView::Account`
does. -/
theorem bucketIndex_eq_account (simd : Simd) (h : Histogram α β)
    (hbuilt : h.BoundsBuilt toFloat) (hsmall : h.buckets.bounds.length ≤ kMaxBPlusBounds)
    (hsorted : h.buckets.bounds.Pairwise (· ≤ ·)) (value : α)
    (hexact : ∀ b ∈ h.buckets.bounds, toFloat value ≤ toFloat b ↔ value ≤ b) :
    bucketIndex toFloat simd h value = h.buckets.bucketIndex value := by
  set bounds := h.buckets.bounds with hbounds
  set q' := fun i => decide (toFloat value ≤
    toFloat (getUpperBound bounds (largestBound bounds) i)) with hq'
  set l0 := leastGreaterEqualIndex simd (h.bounds_.getD 0 default) (toFloat value) with hl0
  set l1 := leastGreaterEqualIndex simd (h.bounds_.getD (1 + l0) default) (toFloat value)
    with hl1
  -- the first layer finds the block, the second the position in it
  have h0 : IsFirst (fun k => q' (kBlockWays * k + kBlockSize)) kBlockSize l0 :=
    (leastGreaterEqualIndex_isFirst simd _ _).congr fun k hk => by
      rw [hbuilt hsmall, bPlusBlocks_root toFloat _ hk]
  have hl0b : l0 < kBlockWays := Nat.lt_succ_of_le h0.1
  have h1 : IsFirst (fun j => q' (kBlockWays * l0 + j)) kBlockSize l1 :=
    (leastGreaterEqualIndex_isFirst simd _ _).congr fun j hj => by
      rw [hbuilt hsmall, bPlusBlocks_leaf toFloat _ hl0b hj]
  have htree : IsFirst q' kMaxBPlusBounds (kBlockWays * l0 + l1) :=
    isFirst_twoLevel (b := kBlockSize) (upward_tree toFloat hsorted value hexact) h0 h1
  have hslow := isFirst_upperBound (upward_bounds hsorted value)
  -- below the bounds the tree holds the bounds themselves
  have hagree : ∀ i < bounds.length, q' i = decide (value ≤ bounds.getD i 0) := by
    intro i hi
    have hmem : bounds.getD i 0 ∈ bounds := by
      rw [List.getD_eq_getElem _ _ hi]
      exact List.getElem_mem hi
    simp only [hq', getUpperBound_of_lt hi, hexact _ hmem]
  have hmin := hslow.min_eq htree hsmall hagree
  rw [bucketIndex, blockIndex_sub_blocksCount, MutableView.bucketIndex]
  simp only [← hl0, ← hl1, ← hbounds]
  split <;> split <;> omega

variable [Add α] [Mul α] [NatCast α]

theorem account_eq_mutableView_account (simd : Simd) (h : Histogram α β)
    (hbuilt : h.BoundsBuilt toFloat) (hsorted : h.buckets.bounds.Pairwise (· ≤ ·)) (value : α)
    (count : UInt64) (hexact : ∀ b ∈ h.buckets.bounds, toFloat value ≤ toFloat b ↔ value ≤ b) :
    (h.account toFloat simd value count).buckets = h.buckets.account value count := by
  unfold Histogram.account
  split
  · rfl
  · rw [bucketIndex_eq_account toFloat simd h hbuilt (by omega) hsorted value hexact]
    rfl

theorem account_eq_mutableView_account_three_bounds :
    let h : Histogram ℤ ℤ := ⟨⟨[1, 2, 3], List.replicate 4 ⟨0, 0⟩, rfl⟩, bPlusBlocks id [1, 2, 3]⟩
    (h.account id .avx2 2 1).buckets = h.buckets.account 2 1 :=
  account_eq_mutableView_account id .avx2 _ (fun _ => rfl) (by decide) 2 1 (fun _ _ => Iff.rfl)

end Account

/-! ## The tree stays built -/

section Build

variable {α β : Type} [Zero α] (toFloat : α → β) (isNormal : α → Bool)

theorem updateBounds_boundsBuilt {h h' : Histogram α β}
    (hup : h.updateBounds toFloat isNormal = .ok h') : h'.BoundsBuilt toFloat := by
  unfold Histogram.updateBounds at hup
  split at hup
  · -- more bounds than the tree holds: it is never used
    cases hup
    intro hle
    omega
  · split at hup
    · cases hup
    · cases hup
      intro _
      rfl

/-- A histogram the constructor returns has the tree of its bounds. -/
theorem ofBounds_boundsBuilt [LT α] [DecidableLT α] [BEq α]
    {upperBounds : List α} {h : Histogram α β}
    (hof : Histogram.ofBounds toFloat isNormal upperBounds = .ok h) : h.BoundsBuilt toFloat := by
  obtain ⟨_, -, hup⟩ := Codec.bind_eq_ok.1 hof
  exact updateBounds_boundsBuilt toFloat isNormal hup

end Build

section Run

variable {α β : Type} [LE α] [DecidableLE α] [Zero α] [Add α] [Mul α] [NatCast α]
variable [LE β] [DecidableLE β] [Zero β] (toFloat : α → β) (simd : Simd)

@[simp] theorem apply_bounds (h : Histogram α β) (op : Op α) :
    (h.apply toFloat simd op).buckets.bounds = h.buckets.bounds := by
  cases op with
  | account value count =>
    show (h.account toFloat simd value count).buckets.bounds = _
    unfold Histogram.account
    split <;> rfl
  | resetMetric => rfl

@[simp] theorem apply_bounds_ (h : Histogram α β) (op : Op α) :
    (h.apply toFloat simd op).bounds_ = h.bounds_ := by
  cases op with
  | account value count =>
    show (h.account toFloat simd value count).bounds_ = _
    unfold Histogram.account
    split <;> rfl
  | resetMetric => rfl

theorem apply_boundsBuilt {h : Histogram α β} (hb : h.BoundsBuilt toFloat) (op : Op α) :
    (h.apply toFloat simd op).BoundsBuilt toFloat := by
  intro hle
  rw [apply_bounds] at hle
  rw [apply_bounds_, apply_bounds]
  exact hb hle

/-- No operation touches the bounds or the tree: every histogram reached from the constructor
has the tree of its bounds. -/
theorem applyAll_boundsBuilt {h : Histogram α β} (hb : h.BoundsBuilt toFloat) (ops : List (Op α)) :
    (h.applyAll toFloat simd ops).BoundsBuilt toFloat := by
  induction ops generalizing h with
  | nil => exact hb
  | cons op ops ih => exact ih (apply_boundsBuilt toFloat simd hb op)

end Run

end Statistics

end Utils

end Userver
