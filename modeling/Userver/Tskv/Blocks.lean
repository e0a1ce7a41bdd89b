import Userver.Tskv.Encode
import Userver.Lib.Lanes

/-!
# The block-wise TSKV encoders

`EncodeTskv(container, str, mode)` (`tskv.hpp`) encodes a value a memory block at a time through
one of four encoders, chosen at compile time: `EncoderStd` (a `uint64_t`), `EncoderSse2` and
`EncoderSsse3` (sixteen lanes) and `EncoderAvx2` (thirty-two lanes).  `EncodeValue` aligns the
address of the string down to the block size and walks the blocks that hold it: the first one
from the offset of the string in it, the whole ones in the middle, and what of the string the last
one holds.  A block that `MayNeedValueEscaping` is encoded byte by byte (`EncodeValueEach`); any
other is copied by `CopyBlock`, which writes a whole block at the cursor of which only `count`
bytes count: the next write, or the last `resize`, covers the rest.  `EncodeFullyBuffered` makes
room for twice the string and one block of padding first.

Memory is a function from addresses to bytes, so the blocks read around the string hold whatever
is there.  A failed `UASSERT` and a write past the end of the container, which would be undefined,
make the model return `none`.

* `Encoder.Correct`: what `EncodeValue` needs of an encoder: `CopyBlock` writes one block that
  starts with the bytes of the block from the offset on, and `MayNeedValueEscaping` is
  `Tskv.mayNeedValueEscaping` of the bytes it is asked about.  The four encoders have it
  (`encoderStd_correct`, ...).
* `encodeFullyBuffered_eq`: with a correct encoder, for every address and length of the string
  and every memory around it, the container ends as it was followed by the byte-wise encoding
  `encodeTskvString` of the string: the blocks `EncodeValue` cuts are a block list of
  `Tskv.doEncode_eq`, and every write stays inside the room made for it.
* `encodeTskv_blocks`: the same for each of the four encoders.
-/

namespace Userver

namespace Tskv

namespace Impl

open Lanes

/-! ## The encoders -/

/-- What `EncodeValue` uses of an encoder: its block type and size and three functions. -/
structure Encoder where
  Block : Type
  kBlockSize : Nat
  /-- `LoadBlock`, from the bytes of an aligned block. -/
  loadBlock : List UInt8 → Block
  /-- `CopyBlock(block, offset, destination)`: the bytes it stores at `destination`. -/
  copyBlock : Block → Nat → List UInt8
  /-- `MayNeedValueEscaping(block, offset, count)`. -/
  mayNeedValueEscaping : Block → Nat → Nat → Bool

/-- `EncoderStd`: a block is a `uint64_t`; `CopyBlock` stores it shifted right by the offset, and
`MayNeedValueEscaping` copies it into a buffer and tests `c <= '\r' || c == '\\'` on the bytes of
`[offset, offset + count)`. -/
def encoderStd : Encoder where
  Block := UInt64
  kBlockSize := 8
  loadBlock := loadWord
  copyBlock block offset := storeWord (block >>> (offset * 8).toUInt64)
  mayNeedValueEscaping block offset count :=
    Tskv.mayNeedValueEscaping (((storeWord block).drop offset).take count)

/-- `CopyBlock` of `EncoderSse2` and `EncoderAvx2`: the block stored at the start of a zeroed
buffer twice its size, and a block loaded back from `offset`. -/
def storageCopyBlock (blockSize : Nat) (block : List UInt8) (offset : Nat) : List UInt8 :=
  let storage := block ++ List.replicate blockSize 0
  (storage.drop offset).take blockSize

/-- `MayNeedValueEscaping` of `EncoderSse2` and `EncoderAvx2` over `lanes` lanes: the mask of the
lanes below `'\r' + 1` as signed bytes or equal to `'\\'`, shifted right by `offset` and left by
`32 - count` as a `uint32_t`. -/
def maskMayNeedValueEscaping (lanes : Nat) (block : List UInt8) (offset count : Nat) : Bool :=
  let mayNeedEscapingMask := movemaskLanes (orLanes
    (cmpgtLanes (set1Lanes lanes ('\r'.toUInt8 + 1)) block)
    (cmpeqLanes block (set1Lanes lanes '\\'.toUInt8)))
  (mayNeedEscapingMask.toUInt32 >>> offset.toUInt32 <<< (32 - count).toUInt32) != 0

/-- `EncoderSse2`: a block is sixteen lanes. -/
def encoderSse2 : Encoder where
  Block := List UInt8
  kBlockSize := 16
  loadBlock block := block
  copyBlock := storageCopyBlock 16
  mayNeedValueEscaping := maskMayNeedValueEscaping 16

/-- `MakeShuffleIndicesForRightShift()`: `0, 1, ..., 15`, then sixteen `0xf0`. -/
def makeShuffleIndicesForRightShift : List UInt8 :=
  let kShuffleWidth := 16
  (List.range (kShuffleWidth * 2)).map fun i => if i < kShuffleWidth then i.toUInt8 else 0xf0

/-- `EncoderSsse3`: `EncoderSse2` with `CopyBlock` a shuffle by the indices from `offset` on. -/
def encoderSsse3 : Encoder :=
  { encoderSse2 with
    copyBlock := fun block offset =>
      shuffleLanes block ((makeShuffleIndicesForRightShift.drop offset).take 16) }

/-- `EncoderAvx2`: a block is thirty-two lanes. -/
def encoderAvx2 : Encoder where
  Block := List UInt8
  kBlockSize := 32
  loadBlock block := block
  copyBlock := storageCopyBlock 32
  mayNeedValueEscaping := maskMayNeedValueEscaping 32

/-! ## Encoding into the container -/

/-- `BufferPtr<Encoder>`: `current`, as an index into the bytes of the container, which the
model carries along. -/
structure BufferPtr where
  container : List UInt8
  current : Nat

/-- Bytes stored at `pos` of a buffer: `none` when they do not fit. -/
def writeBytes (buf : List UInt8) (pos : Nat) (bytes : List UInt8) : Option (List UInt8) :=
  if pos + bytes.length ≤ buf.length then
    some (buf.take pos ++ bytes ++ buf.drop (pos + bytes.length))
  else none

/-- The `n` bytes of memory from `addr` on. -/
def bytesAt (mem : Nat → UInt8) (addr n : Nat) : List UInt8 :=
  (List.range n).map fun j => mem (addr + j)

/-- `AlignDown<Alignment>(ptr)`. -/
def alignDown (alignment ptr : Nat) : Nat := ptr / alignment * alignment

/-- `container.resize(n)`: cut to `n` bytes, or padded with zeros. -/
def resize (container : List UInt8) (n : Nat) : List UInt8 :=
  if n ≤ container.length then container.take n
  else container ++ List.replicate (n - container.length) 0

/-- `encoding::EncodeTskv(destination.current, c, mode)`: the bytes of `c`, one `append` each. -/
def appendEncoded (destination : BufferPtr) (c : UInt8) (mode : EncodeTskvMode) :
    Option BufferPtr := do
  let bytes := encodeTskv c mode
  let container ← writeBytes destination.container destination.current bytes
  pure ⟨container, destination.current + bytes.length⟩

/-- `EncodeValueEach(destination, str)`. -/
def encodeValueEach (destination : BufferPtr) (str : List UInt8) : Option BufferPtr :=
  str.foldlM (fun destination c => appendEncoded destination c .kValue) destination

/-- `MaxEncodedSize(source_size)`. -/
def maxEncodedSize (sourceSize : Nat) : Nat := sourceSize * 2

section Encode

variable (E : Encoder) (mem : Nat → UInt8)

/-- `AppendBlock(destination, block, offset, count)`: `CopyBlock` at the cursor, which moves by
`count`. -/
def appendBlock (destination : BufferPtr) (block : E.Block) (offset count : Nat) :
    Option BufferPtr := do
  let container ← writeBytes destination.container destination.current (E.copyBlock block offset)
  pure ⟨container, destination.current + count⟩

/-- `EncodeValueBlock(destination, block, offset, count)`, with its two `UASSERT`s and that of
`AssumeAligned`. -/
def encodeValueBlock (destination : BufferPtr) (block offset count : Nat) : Option BufferPtr :=
  if ¬(offset < E.kBlockSize ∧ offset + count ≤ E.kBlockSize ∧ block % E.kBlockSize = 0) then
    none
  else
    let blockContents := E.loadBlock (bytesAt mem block E.kBlockSize)
    if E.mayNeedValueEscaping blockContents offset count then
      encodeValueEach destination (bytesAt mem (block + offset) count)
    else appendBlock E destination blockContents offset count

/-- The loop of `EncodeValue` over the blocks between the first and the last one,
`for (current_block = ...; current_block < last_block; current_block += kBlockSize)`, on `fuel`. -/
def encodeWholeBlocks (lastBlock : Nat) : Nat → BufferPtr → Nat → Option BufferPtr
  | 0, _, _ => none
  | fuel + 1, destination, currentBlock =>
    if currentBlock < lastBlock then do
      let destination ← encodeValueBlock E mem destination currentBlock 0 E.kBlockSize
      encodeWholeBlocks lastBlock fuel destination (currentBlock + E.kBlockSize)
    else pure destination

/-- `EncodeValue(destination, str)` for the string of `size` bytes at `data`. -/
def encodeValue (destination : BufferPtr) (data size : Nat) : Option BufferPtr :=
  if size = 0 then pure destination
  else do
    let firstBlock := alignDown E.kBlockSize data
    let firstBlockOffset := data - firstBlock
    let firstBlockCount := min (E.kBlockSize - firstBlockOffset) size
    let destination ← encodeValueBlock E mem destination firstBlock firstBlockOffset firstBlockCount
    let lastBlock := alignDown E.kBlockSize (data + size)
    if lastBlock ≠ firstBlock then
      let destination ← encodeWholeBlocks E mem lastBlock (lastBlock - firstBlock) destination
        (firstBlock + E.kBlockSize)
      let lastBlockCount := data + size - lastBlock
      if lastBlockCount ≠ 0 then encodeValueBlock E mem destination lastBlock 0 lastBlockCount
      else pure destination
    else pure destination

/-- `DoEncode(destination, str, mode)`: values by blocks, keys a byte at a time. -/
def doEncode (destination : BufferPtr) (data size : Nat) (mode : EncodeTskvMode) :
    Option BufferPtr :=
  if mode = .kValue then encodeValue E mem destination data size
  else (bytesAt mem data size).foldlM (fun destination c => appendEncoded destination c mode)
    destination

/-- `EncodeFullyBuffered<Encoder>(container, str, mode)`: room for the encoding and a block of
padding (`PaddingSize`), the encoding, and the container cut at the cursor. -/
def encodeFullyBuffered (container : List UInt8) (data size : Nat) (mode : EncodeTskvMode) :
    Option (List UInt8) := do
  let oldSize := container.length
  let container := resize container (oldSize + maxEncodedSize size + E.kBlockSize)
  let bufferPtr ← doEncode E mem ⟨container, oldSize⟩ data size mode
  pure (resize bufferPtr.container bufferPtr.current)

end Encode

/-! ## What `EncodeValue` needs of an encoder -/

/-- What `EncodeValue` needs of an encoder: blocks of at least one byte; `CopyBlock` of a loaded
block stores one block that starts with the bytes of the block from the offset on; and
`MayNeedValueEscaping` tests exactly the bytes it is asked about. -/
structure Encoder.Correct (E : Encoder) : Prop where
  blockSize_pos : 0 < E.kBlockSize
  copyBlock : ∀ {bytes : List UInt8}, bytes.length = E.kBlockSize → ∀ {offset : Nat},
    offset < E.kBlockSize →
      (E.copyBlock (E.loadBlock bytes) offset).length = E.kBlockSize ∧
      (E.copyBlock (E.loadBlock bytes) offset).take (E.kBlockSize - offset) = bytes.drop offset
  mayNeedValueEscaping : ∀ {bytes : List UInt8}, bytes.length = E.kBlockSize →
    ∀ {offset count : Nat}, offset < E.kBlockSize → 0 < count → offset + count ≤ E.kBlockSize →
      E.mayNeedValueEscaping (E.loadBlock bytes) offset count =
        Tskv.mayNeedValueEscaping ((bytes.drop offset).take count)

/-- A mask of flags is non-zero exactly when one of them is set. -/
theorem maskOf_map_ne_zero {α : Type} (f : α → Bool) (xs : List α) :
    maskOf (xs.map f) ≠ 0 ↔ xs.any f = true := by
  rw [ne_eq, maskOf_eq_zero_iff, List.any_eq_true]
  simp

theorem encoderStd_correct : encoderStd.Correct where
  blockSize_pos := by decide
  copyBlock := by
    intro bytes hlen offset hoffset
    change bytes.length = 8 at hlen
    change offset < 8 at hoffset
    have hdrop : (bytes.drop offset).length = 8 - offset := by simp [hlen]
    change (storeWord (loadWord bytes >>> (offset * 8).toUInt64)).length = 8 ∧
      (storeWord (loadWord bytes >>> (offset * 8).toUInt64)).take (8 - offset) = bytes.drop offset
    -- the shift drops the first `offset` bytes, and zeros come in at the top
    rw [Nat.mul_comm, loadWord_shiftRight hlen.le hoffset, storeWord_loadWord (by omega)]
    refine ⟨by simp [hdrop], ?_⟩
    rw [← hdrop, List.take_left' rfl]
  mayNeedValueEscaping := by
    intro bytes hlen offset count _ _ _
    change bytes.length = 8 at hlen
    change Tskv.mayNeedValueEscaping (((storeWord (loadWord bytes)).drop offset).take count) = _
    rw [storeWord_loadWord hlen.le, hlen, Nat.sub_self, List.replicate_zero, List.append_nil]

/-- The copy through a buffer twice the block's size drops the first `offset` bytes and brings
zeros in at the end. -/
theorem storageCopyBlock_spec {blockSize : Nat} {bytes : List UInt8} (hlen : bytes.length = blockSize)
    {offset : Nat} (hoffset : offset < blockSize) :
    (storageCopyBlock blockSize bytes offset).length = blockSize ∧
      (storageCopyBlock blockSize bytes offset).take (blockSize - offset) = bytes.drop offset := by
  have hdrop : (bytes.drop offset).length = blockSize - offset := by simp [hlen]
  unfold storageCopyBlock
  dsimp only
  rw [List.drop_append_of_le_length (by omega)]
  refine ⟨by simp [hdrop], ?_⟩
  rw [List.take_take, min_eq_left (by omega), ← hdrop, List.take_left' rfl]

/-- The mask test of `EncoderSse2` and `EncoderAvx2` tests the lanes of `[offset, offset + count)`
for `c <= '\r' || c == '\\'`. -/
theorem maskMayNeedValueEscaping_eq {bytes : List UInt8} (hlen : bytes.length ≤ 32)
    {offset count : Nat} (hcount : 0 < count) (hfit : offset + count ≤ bytes.length) :
    maskMayNeedValueEscaping bytes.length bytes offset count =
      Tskv.mayNeedValueEscaping ((bytes.drop offset).take count) := by
  -- `'\r' + 1 > c` as signed bytes is `c <= '\r'`
  have hflag : (fun z : UInt8 => laneOf (decide (z.toInt8 < ('\r'.toUInt8 + 1).toInt8) ||
      z == '\\'.toUInt8)) = laneOf ∘ fun c => decide (c.toInt8 ≤ 13) || decide (c = '\\'.toUInt8) := by
    funext z
    revert z
    set_option maxRecDepth 8000 in decide
  have hmask : maskOf (bytes.map fun c => decide (c.toInt8 ≤ 13) || decide (c = '\\'.toUInt8)) <
      2 ^ 32 :=
    calc _ < 2 ^ (bytes.map _).length := maskOf_lt _
      _ ≤ 2 ^ 32 := Nat.pow_le_pow_right (by norm_num) (by simpa using hlen)
  unfold maskMayNeedValueEscaping
  dsimp only
  rw [orLanes_cmpgt_cmpeq, hflag, ← List.map_map, movemaskLanes_map_laneOf,
    shiftOut_ne_zero hmask (by omega) hcount (by omega), maskOf_div_pow, maskOf_mod_pow,
    ← List.map_drop, ← List.map_take, Tskv.mayNeedValueEscaping, Bool.eq_iff_iff,
    decide_eq_true_iff, maskOf_map_ne_zero]

theorem encoderSse2_correct : encoderSse2.Correct where
  blockSize_pos := by decide
  copyBlock hlen _ hoffset := storageCopyBlock_spec hlen hoffset
  mayNeedValueEscaping := by
    intro bytes hlen offset count _ hcount hfit
    change bytes.length = 16 at hlen
    change offset + count ≤ 16 at hfit
    change maskMayNeedValueEscaping 16 bytes offset count = _
    rw [← hlen]
    exact maskMayNeedValueEscaping_eq (by omega) hcount (by omega)

/-- The shuffle by the indices from `offset` on moves the lanes down by `offset` and brings zeros
in at the top. -/
theorem shuffleLanes_rightShift {bytes : List UInt8} (hlen : bytes.length = 16) {offset : Nat}
    (hoffset : offset < 16) :
    shuffleLanes bytes ((makeShuffleIndicesForRightShift.drop offset).take 16) =
      bytes.drop offset ++ List.replicate offset 0 := by
  have hidx : makeShuffleIndicesForRightShift.length = 32 := by
    simp [makeShuffleIndicesForRightShift]
  apply List.ext_getElem
  · simp [shuffleLanes, hidx, hlen]
    omega
  · intro j hj _
    have hj16 : j < 16 := by
      simp only [shuffleLanes, List.length_map, List.length_take, List.length_drop, hidx] at hj
      omega
    simp only [shuffleLanes, makeShuffleIndicesForRightShift, List.getElem_map, List.getElem_take,
      List.getElem_drop, List.getElem_range]
    by_cases hin : offset + j < 16
    · -- a lane of the block: its index, below `0x80`, names lane `offset + j`
      have hsmall : ¬(0x80 ≤ (offset + j).toUInt8) := by
        rw [UInt8.le_iff_toNat_le, Nat.toUInt8_eq, UInt8.toNat_ofNat', Nat.mod_eq_of_lt (by omega)]
        simp
        omega
      have hlane : ((offset + j).toUInt8 % 16).toNat = offset + j := by
        rw [UInt8.toNat_mod, Nat.toUInt8_eq, UInt8.toNat_ofNat',
          Nat.mod_eq_of_lt (show offset + j < 2 ^ 8 by omega), show (16 : UInt8).toNat = 16 from rfl,
          Nat.mod_eq_of_lt hin]
      rw [if_pos hin, if_neg hsmall, hlane, List.getElem_append_left (by simp [hlen]; omega),
        List.getElem_drop, List.getD_eq_getElem?_getD, List.getElem?_eq_getElem (by omega),
        Option.getD_some]
    · -- past the block: `0xf0` has its top bit set, and zero comes in
      rw [if_neg hin, if_pos (by decide), List.getElem_append_right (by simp [hlen]; omega),
        List.getElem_replicate]

theorem encoderSsse3_correct : encoderSsse3.Correct where
  blockSize_pos := by decide
  copyBlock := by
    intro bytes hlen offset hoffset
    change bytes.length = 16 at hlen
    change offset < 16 at hoffset
    change (shuffleLanes bytes ((makeShuffleIndicesForRightShift.drop offset).take 16)).length = 16 ∧
      (shuffleLanes bytes ((makeShuffleIndicesForRightShift.drop offset).take 16)).take (16 - offset) =
        bytes.drop offset
    have hdrop : (bytes.drop offset).length = 16 - offset := by simp [hlen]
    rw [shuffleLanes_rightShift hlen hoffset]
    refine ⟨by simp [hdrop]; omega, ?_⟩
    rw [← hdrop, List.take_left' rfl]
  mayNeedValueEscaping := encoderSse2_correct.mayNeedValueEscaping

theorem encoderAvx2_correct : encoderAvx2.Correct where
  blockSize_pos := by decide
  copyBlock hlen _ hoffset := storageCopyBlock_spec hlen hoffset
  mayNeedValueEscaping := by
    intro bytes hlen offset count _ hcount hfit
    change bytes.length = 32 at hlen
    change offset + count ≤ 32 at hfit
    change maskMayNeedValueEscaping 32 bytes offset count = _
    rw [← hlen]
    exact maskMayNeedValueEscaping_eq (by omega) hcount (by omega)

/-! ## Bytes in memory and their encoding -/

@[simp] theorem length_bytesAt (mem : Nat → UInt8) (addr n : Nat) : (bytesAt mem addr n).length = n := by
  simp [bytesAt]

@[simp] theorem bytesAt_zero (mem : Nat → UInt8) (addr : Nat) : bytesAt mem addr 0 = [] := rfl

theorem bytesAt_add (mem : Nat → UInt8) (addr m n : Nat) :
    bytesAt mem addr (m + n) = bytesAt mem addr m ++ bytesAt mem (addr + m) n := by
  unfold bytesAt
  rw [List.range_add, List.map_append, List.map_map]
  congr 2
  funext j
  simp [Nat.add_assoc]

/-- Two runs of memory that meet are one run. -/
theorem bytesAt_append (mem : Nat → UInt8) {addr m addr' : Nat} (h : addr + m = addr') (n : Nat) :
    bytesAt mem addr m ++ bytesAt mem addr' n = bytesAt mem addr (m + n) := by
  rw [bytesAt_add, h]

/-- The bytes `[offset, offset + count)` of the block at `block`. -/
theorem take_drop_bytesAt (mem : Nat → UInt8) (block : Nat) {blockSize offset count : Nat}
    (hfit : offset + count ≤ blockSize) :
    ((bytesAt mem block blockSize).drop offset).take count = bytesAt mem (block + offset) count := by
  obtain ⟨rest, rfl⟩ : ∃ rest, blockSize = offset + count + rest := ⟨blockSize - (offset + count), by omega⟩
  rw [bytesAt_add, bytesAt_add, List.append_assoc, List.drop_left' (length_bytesAt ..),
    List.take_left' (length_bytesAt ..)]

theorem length_encodeTskv_le (ch : UInt8) (mode : EncodeTskvMode) : (encodeTskv ch mode).length ≤ 2 := by
  unfold encodeTskv
  dsimp only
  split_ifs <;> simp

theorem length_encodeTskvString_le (str : List UInt8) (mode : EncodeTskvMode) :
    (encodeTskvString str mode).length ≤ 2 * str.length := by
  induction str with
  | nil => simp
  | cons ch str ih =>
    have := length_encodeTskv_le ch mode
    simp only [encodeTskvString_cons, List.length_append, List.length_cons]
    omega

theorem encodeTskvString_append (a b : List UInt8) (mode : EncodeTskvMode) :
    encodeTskvString (a ++ b) mode = encodeTskvString a mode ++ encodeTskvString b mode :=
  List.flatMap_append

/-- Bytes that need no escaping encode to themselves. -/
theorem encodeTskvString_of_not_mayNeed {str : List UInt8} (h : Tskv.mayNeedValueEscaping str = false) :
    encodeTskvString str .kValue = str := by
  rw [← encodeValueBlock_eq, Tskv.encodeValueBlock, if_neg (by simp [h])]

/-! ## The cursor over the container

`EncodeValue` writes past the cursor (`CopyBlock` stores a whole block), so what it has encoded is
what lies before the cursor, and the invariant says only that. -/

/-- `out` lies before the cursor, in a container of `total` bytes. -/
structure Written (out : List UInt8) (total : Nat) (destination : BufferPtr) : Prop where
  length_eq : destination.container.length = total
  current_eq : destination.current = out.length
  take_eq : destination.container.take destination.current = out

section Written

variable {out : List UInt8} {total : Nat} {destination destination' : BufferPtr}

theorem Written.current_le (hw : Written out total destination) : destination.current ≤ total := by
  have h := congrArg List.length hw.take_eq
  rw [List.length_take, hw.length_eq, ← hw.current_eq] at h
  omega

/-- The cursor moves by at most two bytes a byte of the string. -/
theorem Written.current_le_add (hw : Written out total destination) {str : List UInt8}
    {mode : EncodeTskvMode} (hw' : Written (out ++ encodeTskvString str mode) total destination') :
    destination'.current ≤ destination.current + 2 * str.length := by
  have := length_encodeTskvString_le str mode
  rw [hw'.current_eq, hw.current_eq, List.length_append]
  omega

/-- A write at the cursor that fits: the cursor may move over any part of what it wrote. -/
theorem Written.write (hw : Written out total destination) (bytes : List UInt8)
    (hroom : destination.current + bytes.length ≤ total) :
    ∃ container, writeBytes destination.container destination.current bytes = some container ∧
      ∀ k ≤ bytes.length, Written (out ++ bytes.take k) total ⟨container, destination.current + k⟩ := by
  have hcur := hw.current_le
  have hbefore : (destination.container.take destination.current).length = destination.current := by
    simp [hw.length_eq]
    omega
  refine ⟨_, if_pos (hw.length_eq ▸ hroom), fun k hk => ⟨?_, ?_, ?_⟩⟩
  · simp [hw.length_eq]
    omega
  · simp [hw.current_eq]
    omega
  · dsimp only
    rw [List.append_assoc, List.take_append, hbefore, List.take_of_length_le (by omega),
      Nat.add_sub_cancel_left, List.take_append, Nat.sub_eq_zero_of_le (by simpa using hk),
      List.take_zero, List.append_nil, hw.take_eq]

theorem Written.appendEncoded (hw : Written out total destination)
    (hroom : destination.current + 2 ≤ total) (ch : UInt8) (mode : EncodeTskvMode) :
    ∃ destination', Impl.appendEncoded destination ch mode = some destination' ∧
      Written (out ++ encodeTskv ch mode) total destination' := by
  have := length_encodeTskv_le ch mode
  obtain ⟨container, hwrite, hk⟩ := hw.write (encodeTskv ch mode) (by omega)
  have hall := hk _ le_rfl
  rw [List.take_length] at hall
  exact ⟨_, by simp [Impl.appendEncoded, hwrite], hall⟩

/-- `EncodeValueEach`, and the byte-wise loop of `DoEncode` for keys. -/
theorem Written.foldlM_appendEncoded (mode : EncodeTskvMode) (str : List UInt8)
    (hw : Written out total destination) (hroom : destination.current + 2 * str.length ≤ total) :
    ∃ destination', str.foldlM (fun destination ch => Impl.appendEncoded destination ch mode)
      destination = some destination' ∧
      Written (out ++ encodeTskvString str mode) total destination' := by
  -- one `append` a byte; the room left shrinks by at most two each time
  induction str generalizing out destination with
  | nil => exact ⟨destination, rfl, by simpa using hw⟩
  | cons ch str ih =>
    simp only [List.length_cons] at hroom
    obtain ⟨destination₁, happend, hw₁⟩ := hw.appendEncoded (by omega) ch mode
    have hcur : destination₁.current ≤ destination.current + 2 := by
      have := length_encodeTskv_le ch mode
      rw [hw₁.current_eq, hw.current_eq, List.length_append]
      omega
    obtain ⟨destination', hfold, hw'⟩ := ih hw₁ (by omega)
    refine ⟨destination', by rw [List.foldlM_cons, happend]; exact hfold, ?_⟩
    rwa [encodeTskvString_cons, ← List.append_assoc]

end Written

/-! ## `EncodeValue` -/

/-- `AlignDown` goes down to a multiple of the alignment, less than one alignment away. -/
theorem alignDown_le (alignment ptr : Nat) : alignDown alignment ptr ≤ ptr :=
  Nat.div_mul_le_self ptr alignment

theorem lt_alignDown_add {alignment : Nat} (h : 0 < alignment) (ptr : Nat) :
    ptr < alignDown alignment ptr + alignment := by
  unfold alignDown
  have := Nat.lt_div_mul_add (a := ptr) h
  omega

theorem dvd_alignDown (alignment ptr : Nat) : alignment ∣ alignDown alignment ptr :=
  Nat.dvd_mul_left alignment _

theorem alignDown_mono (alignment : Nat) {p q : Nat} (h : p ≤ q) :
    alignDown alignment p ≤ alignDown alignment q :=
  Nat.mul_le_mul_right _ (Nat.div_le_div_right h)

/-- Two different aligned addresses are at least one alignment apart. -/
theorem alignDown_add_le {alignment p q : Nat} (h : alignDown alignment p < alignDown alignment q) :
    alignDown alignment p + alignment ≤ alignDown alignment q := by
  unfold alignDown at h ⊢
  have hdiv : p / alignment < q / alignment := Nat.lt_of_mul_lt_mul_right h
  calc p / alignment * alignment + alignment = (p / alignment + 1) * alignment := by rw [Nat.succ_mul]
    _ ≤ q / alignment * alignment := Nat.mul_le_mul_right _ hdiv

section EncodeValue

variable {E : Encoder} (hE : E.Correct) (mem : Nat → UInt8)
variable {out : List UInt8} {total : Nat} {destination : BufferPtr}
include hE

/-- `EncodeValueBlock` encodes the bytes `[offset, offset + count)` of the block, whichever way it
takes, and writes at most a block past the cursor. -/
theorem Written.encodeValueBlock (hw : Written out total destination) {block offset count : Nat}
    (hblock : E.kBlockSize ∣ block) (hoffset : offset < E.kBlockSize) (hcount : 0 < count)
    (hfit : offset + count ≤ E.kBlockSize)
    (hroom : destination.current + 2 * count + E.kBlockSize ≤ total) :
    ∃ destination', Impl.encodeValueBlock E mem destination block offset count = some destination' ∧
      Written (out ++ encodeTskvString (bytesAt mem (block + offset) count) .kValue) total
        destination' := by
  have hlen := length_bytesAt mem block E.kBlockSize
  unfold Impl.encodeValueBlock
  rw [if_neg (not_not.mpr ⟨hoffset, hfit, Nat.mod_eq_zero_of_dvd hblock⟩)]
  dsimp only
  rw [hE.mayNeedValueEscaping hlen hoffset hcount hfit, take_drop_bytesAt mem block hfit]
  split
  · -- a block that may need escaping goes a byte at a time
    exact hw.foldlM_appendEncoded .kValue _ (by simp; omega)
  · -- any other is copied whole, and the cursor moves over its first `count` bytes
    rename_i hmay
    obtain ⟨hcopyLen, hcopy⟩ := hE.copyBlock hlen hoffset
    obtain ⟨container, hwrite, hk⟩ :=
      hw.write (E.copyBlock (E.loadBlock (bytesAt mem block E.kBlockSize)) offset) (by omega)
    have htake : (E.copyBlock (E.loadBlock (bytesAt mem block E.kBlockSize)) offset).take count =
        bytesAt mem (block + offset) count := by
      rw [← take_drop_bytesAt mem block hfit, ← hcopy, List.take_take, min_eq_left (by omega)]
    have hcount' := hk count (by omega)
    rw [htake] at hcount'
    rw [encodeTskvString_of_not_mayNeed (by simpa using hmay)]
    exact ⟨_, by simp [appendBlock, hwrite], hcount'⟩

/-- The loop over the whole blocks: `n` blocks from `currentBlock` up to `lastBlock`, with fuel to
spare. -/
theorem Written.encodeWholeBlocks {lastBlock : Nat} (n : Nat) :
    ∀ (fuel : Nat) {currentBlock : Nat} {out : List UInt8} {destination : BufferPtr},
      Written out total destination → E.kBlockSize ∣ currentBlock →
      currentBlock + E.kBlockSize * n = lastBlock → n < fuel →
      destination.current + 2 * (E.kBlockSize * n) + E.kBlockSize ≤ total →
      ∃ destination', Impl.encodeWholeBlocks E mem lastBlock fuel destination currentBlock =
        some destination' ∧
        Written (out ++ encodeTskvString (bytesAt mem currentBlock (E.kBlockSize * n)) .kValue)
          total destination' := by
  have hB := hE.blockSize_pos
  -- induction on the blocks left; every turn has fuel for the test that ends the loop
  induction n with
  | zero =>
    intro fuel currentBlock out destination hw _ hlast hfuel _
    obtain ⟨fuel, rfl⟩ : ∃ f, fuel = f + 1 := ⟨fuel - 1, by omega⟩
    rw [Impl.encodeWholeBlocks, if_neg (by omega)]
    exact ⟨destination, rfl, by simpa using hw⟩
  | succ n ih =>
    intro fuel currentBlock out destination hw hblock hlast hfuel hroom
    obtain ⟨fuel, rfl⟩ : ∃ f, fuel = f + 1 := ⟨fuel - 1, by omega⟩
    rw [Nat.mul_succ] at hlast hroom ⊢
    obtain ⟨destination₁, h₁, hw₁⟩ :=
      hw.encodeValueBlock hE mem hblock hB hB (by omega) (by omega)
    have hcur := hw.current_le_add hw₁
    rw [length_bytesAt] at hcur
    obtain ⟨destination', h', hw'⟩ := ih fuel hw₁ (Nat.dvd_add hblock (dvd_refl _))
      (by omega) (by omega) (by omega)
    refine ⟨destination', ?_, ?_⟩
    · rw [Impl.encodeWholeBlocks, if_pos (by omega), Option.bind_eq_bind, h₁, Option.bind_some]
      exact h'
    · rwa [Nat.add_comm (E.kBlockSize * n), bytesAt_add, encodeTskvString_append,
        ← List.append_assoc, ← Nat.add_zero currentBlock]

/-- `EncodeValue` encodes the string, whatever its address and length. -/
theorem Written.encodeValue (hw : Written out total destination) (data size : Nat)
    (hroom : destination.current + 2 * size + E.kBlockSize ≤ total) :
    ∃ destination', Impl.encodeValue E mem destination data size = some destination' ∧
      Written (out ++ encodeTskvString (bytesAt mem data size) .kValue) total destination' := by
  have hB := hE.blockSize_pos
  unfold Impl.encodeValue
  by_cases hsize : size = 0
  · subst hsize
    exact ⟨destination, if_pos rfl, by simpa using hw⟩
  rw [if_neg hsize]
  dsimp only
  have hfirst := alignDown_le E.kBlockSize data
  have hfirst' := lt_alignDown_add hB data
  have hlast := alignDown_le E.kBlockSize (data + size)
  have hlast' := lt_alignDown_add hB (data + size)
  have hmono := alignDown_mono E.kBlockSize (Nat.le_add_right data size)
  set firstBlock := alignDown E.kBlockSize data
  set lastBlock := alignDown E.kBlockSize (data + size)
  set firstBlockCount := min (E.kBlockSize - (data - firstBlock)) size with hcount
  -- the first block, from the offset of `data` in it
  obtain ⟨destination₁, h₁, hw₁⟩ := hw.encodeValueBlock hE mem
    (show E.kBlockSize ∣ firstBlock from dvd_alignDown _ data) (show data - firstBlock < E.kBlockSize by omega) (show 0 < firstBlockCount by omega)
    (by omega) (by omega)
  rw [Nat.add_sub_cancel' hfirst] at hw₁
  have hcur₁ := hw.current_le_add hw₁
  rw [length_bytesAt] at hcur₁
  rw [Option.bind_eq_bind, h₁, Option.bind_some]
  by_cases hsame : lastBlock = firstBlock
  · -- the string ends in its first block
    rw [if_neg (not_not.mpr hsame)]
    rw [show firstBlockCount = size by omega] at hw₁
    exact ⟨destination₁, rfl, hw₁⟩
  rw [if_pos hsame]
  -- the whole blocks between the first and the last one
  have hstep := alignDown_add_le (lt_of_le_of_ne hmono (Ne.symm hsame))
  obtain ⟨n, hn⟩ : E.kBlockSize ∣ lastBlock - (firstBlock + E.kBlockSize) :=
    Nat.dvd_sub (dvd_alignDown _ _) (Nat.dvd_add (dvd_alignDown _ _) (dvd_refl _))
  have hn' : n ≤ E.kBlockSize * n := Nat.le_mul_of_pos_left n hB
  have hwhole : firstBlock + E.kBlockSize + E.kBlockSize * n = lastBlock := by omega
  obtain ⟨destination₂, h₂, hw₂⟩ := hw₁.encodeWholeBlocks hE mem n (lastBlock - firstBlock)
    (show E.kBlockSize ∣ firstBlock + E.kBlockSize from Nat.dvd_add (dvd_alignDown _ _) (dvd_refl _))
    hwhole (by omega) (by omega)
  have hcur₂ := hw₁.current_le_add hw₂
  rw [length_bytesAt] at hcur₂
  rw [h₂, Option.bind_some]
  -- the string is the first block's part, the whole blocks and the last block's part
  have hbytes : ∀ lastBlockCount, data + size = lastBlock + lastBlockCount →
      bytesAt mem data size = bytesAt mem data firstBlockCount ++
        (bytesAt mem (firstBlock + E.kBlockSize) (E.kBlockSize * n) ++
          bytesAt mem (lastBlock + 0) lastBlockCount) := by
    intro lastBlockCount hend
    rw [bytesAt_append mem (by omega), bytesAt_append mem (by omega)]
    congr 1
    omega
  by_cases hzero : data + size - lastBlock = 0
  · -- the string ends at a block boundary
    rw [if_neg (not_not.mpr hzero)]
    refine ⟨destination₂, rfl, ?_⟩
    rw [hbytes 0 (by omega), bytesAt_zero, List.append_nil, encodeTskvString_append, ← List.append_assoc]
    exact hw₂
  · rw [if_pos hzero]
    obtain ⟨destination₃, h₃, hw₃⟩ := hw₂.encodeValueBlock hE mem
      (show E.kBlockSize ∣ lastBlock from dvd_alignDown _ _) hB
      (Nat.pos_of_ne_zero hzero) (by omega) (by omega)
    refine ⟨destination₃, h₃, ?_⟩
    rw [hbytes (data + size - lastBlock) (by omega), encodeTskvString_append, encodeTskvString_append]
    simpa only [List.append_assoc] using hw₃

end EncodeValue

/-! ## `EncodeFullyBuffered` -/

/-- The room `EncodeFullyBuffered` makes: the old bytes lie before the cursor. -/
theorem written_resize {container : List UInt8} {total : Nat} (h : container.length ≤ total) :
    Written container total ⟨resize container total, container.length⟩ := by
  unfold resize
  split_ifs with hle
  · have htotal : total = container.length := by omega
    subst htotal
    exact ⟨by simp, rfl, by simp⟩
  · exact ⟨by simp; omega, rfl, List.take_left' rfl⟩

/-- With a correct encoder, `EncodeFullyBuffered` appends the byte-wise encoding of the string to
the container, for every mode, every address and length of the string and every memory around
it. -/
theorem encodeFullyBuffered_eq {E : Encoder} (hE : E.Correct) (mem : Nat → UInt8)
    (container : List UInt8) (data size : Nat) (mode : EncodeTskvMode) :
    encodeFullyBuffered E mem container data size mode =
      some (container ++ encodeTskvString (bytesAt mem data size) mode) := by
  have hw : Written container (container.length + maxEncodedSize size + E.kBlockSize)
      ⟨resize container (container.length + maxEncodedSize size + E.kBlockSize), container.length⟩ :=
    written_resize (by omega)
  obtain ⟨destination, hdo, hw'⟩ : ∃ destination,
      doEncode E mem ⟨resize container (container.length + maxEncodedSize size + E.kBlockSize),
        container.length⟩ data size mode = some destination ∧
      Written (container ++ encodeTskvString (bytesAt mem data size) mode)
        (container.length + maxEncodedSize size + E.kBlockSize) destination := by
    unfold doEncode
    split
    · -- values go by blocks
      rename_i hmode
      subst hmode
      exact hw.encodeValue hE mem data size (by simp [maxEncodedSize]; omega)
    · -- keys go a byte at a time
      exact hw.foldlM_appendEncoded mode _ (by simp [maxEncodedSize]; omega)
  unfold encodeFullyBuffered
  simp only [hdo, Option.bind_eq_bind, Option.bind_some]
  rw [resize, if_pos (hw'.length_eq ▸ hw'.current_le), hw'.take_eq]
  rfl

theorem encodeTskv_blocks (mem : Nat → UInt8) (container : List UInt8) (data size : Nat) :
    encodeFullyBuffered encoderStd mem container data size .kValue =
        some (container ++ encodeTskvString (bytesAt mem data size) .kValue) ∧
      encodeFullyBuffered encoderSse2 mem container data size .kValue =
        some (container ++ encodeTskvString (bytesAt mem data size) .kValue) ∧
      encodeFullyBuffered encoderSsse3 mem container data size .kValue =
        some (container ++ encodeTskvString (bytesAt mem data size) .kValue) ∧
      encodeFullyBuffered encoderAvx2 mem container data size .kValue =
        some (container ++ encodeTskvString (bytesAt mem data size) .kValue) :=
  ⟨encodeFullyBuffered_eq encoderStd_correct mem container data size .kValue,
    encodeFullyBuffered_eq encoderSse2_correct mem container data size .kValue,
    encodeFullyBuffered_eq encoderSsse3_correct mem container data size .kValue,
    encodeFullyBuffered_eq encoderAvx2_correct mem container data size .kValue⟩

/-- A tab in the second block of a string that starts in the middle of its first one. -/
example : encodeFullyBuffered encoderStd (fun addr => if addr = 8 then '\t'.toUInt8 else 'x'.toUInt8)
    [1] 6 4 .kValue = some [1, 'x'.toUInt8, 'x'.toUInt8, '\\'.toUInt8, 't'.toUInt8, 'x'.toUInt8] := by
  decide

end Impl

end Tskv

end Userver
