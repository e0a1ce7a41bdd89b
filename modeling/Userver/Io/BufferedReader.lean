import Userver.Lib.Loop

/-!
# The buffered reader

`engine::io::BufferedReader` (`buffered.cpp`) reads a byte stream through an `impl::Buffer`
(`impl/buffer.cpp`): a storage of `RoundedSize(n)` bytes with a read and a write pointer.  The
bytes between the pointers are the buffered part of the stream; a refill (`FillBuffer`) asks the
source for at most the room past the write pointer.  `Buffer::Reserve(n)` is meant to make that
room at least `n`: it reallocates when `n` and the buffered bytes do not fit in the storage, and
moves the buffered bytes to the front (`Rebase`) when `n` exceeds the room past the read pointer.

The storage outside the buffered bytes is never read, so the model keeps the storage's size, the
offset of the read pointer and the buffered bytes.  The source is any stream allowed by the
contract of `ReadableBase::ReadSome`: each call returns between `1` and the bytes asked for and
left, as a script of chunk sizes says, and `0` once the stream is exhausted; asked for `0` bytes,
it returns `0`, as `recv` and the test mock do.  The lengths it is asked for are recorded.  A
byte goes to a predicate as a `char` converted to `int`, and `char` is signed on the targets of
the source (x86-64), so the byte `0xFF` reads as `EOF`.

`Buffer.reserve_room` says what `Reserve` does guarantee: the buffered bytes stay, and the room
past the read pointer is at least `n`.  The room past the write pointer can stay smaller, and a
refill then asks the source for `0` bytes: `readAll_short_after_readSome` is a `ReadAll(100)` that
returns 96 bytes of a stream with 100 left.
-/

namespace Userver

namespace Io

/-- `kDefaultBufferSize`. -/
def kDefaultBufferSize : Nat := 32 * 1024

/-- `kSizeGranularity`. -/
def kSizeGranularity : Nat := 4096

/-- `RoundedSize`. -/
def roundedSize (size : Nat) : Nat :=
  ((size + kSizeGranularity - 1) / kSizeGranularity) * kSizeGranularity

/-- `impl::Buffer`: the size of the storage, the offset of the read pointer, and the bytes
between the read and the write pointer. -/
structure Buffer where
  size : Nat
  readPos : Nat
  readable : List UInt8
  deriving DecidableEq, Repr

namespace Buffer

/-- The offset of the write pointer. -/
def writePos (b : Buffer) : Nat := b.readPos + b.readable.length

/-- The write pointer stays within the storage. -/
def WF (b : Buffer) : Prop := b.writePos ≤ b.size

/-- `Buffer(initial_size)`. -/
def create (initialSize : Nat) : Buffer := ⟨roundedSize initialSize, 0, []⟩

/-- `AvailableReadBytes`. -/
def availableReadBytes (b : Buffer) : Nat := b.readable.length

/-- `AvailableWriteBytes`: the room past the write pointer. -/
def availableWriteBytes (b : Buffer) : Nat := b.size - b.writePos

/-- `Rebase`: the buffered bytes move to the front of the storage. -/
def rebase (b : Buffer) : Buffer := { b with readPos := 0 }

/-- `Reallocate(size_request)`: a new storage of `RoundedSize(size_request)` bytes, then
`Rebase`, which copies the buffered bytes into it. -/
def reallocate (b : Buffer) (sizeRequest : Nat) : Buffer :=
  rebase { b with size := roundedSize sizeRequest }

/-- `Reserve(num_bytes)`. -/
def reserve (b : Buffer) (numBytes : Nat) : Buffer :=
  let b := if numBytes + b.availableReadBytes > b.size then
      b.reallocate (numBytes + b.availableReadBytes)
    else b
  if numBytes > b.availableReadBytes + b.availableWriteBytes then b.rebase else b

/-- `ReportRead(num_bytes)`: an emptied buffer is rebased. -/
def reportRead (b : Buffer) (numBytes : Nat) : Buffer :=
  let b' := { b with readPos := b.readPos + numBytes, readable := b.readable.drop numBytes }
  if numBytes ≠ 0 ∧ b'.availableReadBytes = 0 then b'.rebase else b'

/-- The bytes a source wrote past the write pointer, then `ReportWritten`. -/
def reportWritten (b : Buffer) (bytes : List UInt8) : Buffer :=
  { b with readable := b.readable ++ bytes }

@[simp] theorem rebase_readable (b : Buffer) : b.rebase.readable = b.readable := rfl

@[simp] theorem reallocate_readable (b : Buffer) (n : Nat) :
    (b.reallocate n).readable = b.readable := rfl

theorem roundedSize_ge (size : Nat) : size ≤ roundedSize size := by
  unfold roundedSize kSizeGranularity
  omega

/-- `Reserve` keeps the buffered bytes. -/
@[simp] theorem reserve_readable (b : Buffer) (n : Nat) : (b.reserve n).readable = b.readable := by
  simp only [reserve]
  split_ifs <;> rfl

@[simp] theorem reportRead_readable (b : Buffer) (n : Nat) :
    (b.reportRead n).readable = b.readable.drop n := by
  simp only [reportRead]
  split_ifs <;> rfl

@[simp] theorem reportWritten_readable (b : Buffer) (bytes : List UInt8) :
    (b.reportWritten bytes).readable = b.readable ++ bytes := rfl

/-- What `Reserve(n)` guarantees: the storage stays well formed and the room past the read
pointer is at least `n`.  It does not make the room past the write pointer `n`. -/
theorem reserve_room {b : Buffer} (hb : b.WF) (n : Nat) :
    (b.reserve n).WF ∧
      n ≤ (b.reserve n).availableReadBytes + (b.reserve n).availableWriteBytes := by
  have hround := roundedSize_ge (n + b.availableReadBytes)
  simp only [reserve]
  -- a reallocation or not, then a rebase or not
  split_ifs <;>
    simp only [WF, writePos, reallocate, rebase, availableWriteBytes, availableReadBytes]
      at * <;> omega

end Buffer

/-- A byte source allowed by the contract of `ReadSome`: the bytes left in the stream, how many
bytes its next calls return, and the lengths it was asked for. -/
structure Source where
  remaining : List UInt8
  chunkSizes : List Nat
  requests : List Nat
  deriving DecidableEq, Repr

/-- `ReadSome(buf, len)`: between `1` and the bytes asked for and left, as the script says, as
many as possible once the script is used up. -/
def Source.readSome (s : Source) (len : Nat) : List UInt8 × Source :=
  let count := min (max 1 (s.chunkSizes.headD len)) (min len s.remaining.length)
  (s.remaining.take count, ⟨s.remaining.drop count, s.chunkSizes.tail, s.requests ++ [len]⟩)

/-- `EOF`. -/
def kEOF : Int := -1

/-- A byte read as a signed `char` and converted to `int`. -/
def signedChar (b : UInt8) : Int := if b.toNat < 128 then b.toNat else b.toNat - 256

/-- The exceptions of the reader: `TerminatorNotFoundException`. -/
inductive IoError where
  | terminatorNotFound (what : String)
  deriving DecidableEq, Repr

/-- `BufferedReader`: its source and its buffer. -/
structure BufferedReader where
  source : Source
  buffer : Buffer
  deriving DecidableEq, Repr

namespace BufferedReader

/-- `BufferedReader(source, buffer_size)`. -/
def create (source : Source) (bufferSize : Nat) : BufferedReader :=
  ⟨source, Buffer.create bufferSize⟩

/-- `BufferedReader(source)`, with a buffer of `kDefaultBufferSize`. -/
def createDefault (source : Source) : BufferedReader := create source kDefaultBufferSize

/-- The unread part of the stream: the buffered bytes, then the bytes left in the source. -/
def pending (r : BufferedReader) : List UInt8 := r.buffer.readable ++ r.source.remaining

/-- `buffer_->Reserve(num_bytes)`. -/
def reserve (r : BufferedReader) (numBytes : Nat) : BufferedReader :=
  { r with buffer := r.buffer.reserve numBytes }

/-- `buffer_->ReportRead(num_bytes)`. -/
def reportRead (r : BufferedReader) (numBytes : Nat) : BufferedReader :=
  { r with buffer := r.buffer.reportRead numBytes }

/-- `FillBuffer`: one `ReadSome` of the source into the room past the write pointer. -/
def fillBuffer (r : BufferedReader) : Nat × BufferedReader :=
  let (bytes, source) := r.source.readSome r.buffer.availableWriteBytes
  (bytes.length, ⟨source, r.buffer.reportWritten bytes⟩)

/-- `ReadSome(max_bytes)`. -/
def readSome (r : BufferedReader) (maxBytes : Nat) : List UInt8 × BufferedReader :=
  let r := if r.buffer.availableReadBytes = 0 then (r.reserve 1).fillBuffer.2 else r
  let result := r.buffer.readable.take (min maxBytes r.buffer.availableReadBytes)
  (result, r.reportRead result.length)

/-- One turn of the loop of `ReadAll`: a refill while fewer than `numBytes` bytes are buffered,
which ends the loop when it reads nothing. -/
def readAllStep (numBytes : Nat) (r : BufferedReader) : BufferedReader ⊕ BufferedReader :=
  if r.buffer.availableReadBytes < numBytes then
    let (readBytes, r) := r.fillBuffer
    if readBytes = 0 then .inl r else .inr r
  else .inl r

/-- `ReadAll(num_bytes)`. -/
def readAll (r : BufferedReader) (numBytes : Nat) : List UInt8 × BufferedReader :=
  let r := if r.buffer.availableReadBytes < numBytes then
      let r := r.reserve (numBytes - r.buffer.availableReadBytes)
      Loop.run (readAllStep numBytes) id (r.source.remaining.length + 1) r
    else r
  let result := r.buffer.readable.take (min numBytes r.buffer.availableReadBytes)
  (result, r.reportRead result.length)

/-- One turn of the loop of `ReadUntil(pred)` from `search_pos`: the scan of the buffered bytes,
then a refill when no byte satisfies `pred`.  It ends with whether a byte was found and the
position after the scan. -/
def readUntilStep (pred : Int → Bool) (state : Nat × BufferedReader) :
    (Bool × Nat × BufferedReader) ⊕ (Nat × BufferedReader) :=
  let (searchPos, r) := state
  match (r.buffer.readable.drop searchPos).findIdx? (fun b => pred (signedChar b)) with
  | some i => .inl (true, searchPos + i + 1, r)
  | none =>
    let searchPos := r.buffer.availableReadBytes
    let (readBytes, r) := (r.reserve 1).fillBuffer
    if readBytes = 0 then .inl (false, searchPos, r) else .inr (searchPos, r)

/-- `ReadUntil(pred)`. -/
def readUntil (r : BufferedReader) (pred : Int → Bool) :
    Except IoError (List UInt8 × BufferedReader) :=
  let (found, searchPos, r) := Loop.run (readUntilStep pred) (fun (searchPos, r) => (false, searchPos, r))
    (r.source.remaining.length + 1) (0, r)
  if !found ∧ !pred kEOF then
    .error (.terminatorNotFound "EOF encountered before terminator could be found")
  else
    let result := r.buffer.readable.take searchPos
    .ok (result, r.reportRead result.length)

/-- `Peek`. -/
def peek (r : BufferedReader) : Int × BufferedReader :=
  let r := if r.buffer.availableReadBytes = 0 then (r.reserve 1).fillBuffer.2 else r
  match r.buffer.readable.head? with
  | some b => (signedChar b, r)
  | none => (kEOF, r)

/-- `Getc`. -/
def getc (r : BufferedReader) : Int × BufferedReader :=
  let (result, r) := r.peek
  (result, if result ≠ kEOF then r.reportRead 1 else r)

/-- One turn of the loop of `Discard(num_bytes)`: a refill, of which what is still to be
discarded is read, until a refill reads nothing. -/
def discardStep (numBytes : Nat) (state : Nat × BufferedReader) :
    BufferedReader ⊕ (Nat × BufferedReader) :=
  let (discardedBytes, r) := state
  if discardedBytes < numBytes then
    let (readBytes, r) := (r.reserve 1).fillBuffer
    if readBytes = 0 then .inl r
    else
      let bytesToSkip := min readBytes (numBytes - discardedBytes)
      .inr (discardedBytes + bytesToSkip, r.reportRead bytesToSkip)
  else .inl r

/-- `Discard(num_bytes)`. -/
def discard (r : BufferedReader) (numBytes : Nat) : BufferedReader :=
  let discardedBytes := min numBytes r.buffer.availableReadBytes
  let r := r.reportRead discardedBytes
  Loop.run (discardStep numBytes) (fun (_, r) => r) (r.source.remaining.length + 1)
    (discardedBytes, r)

/-! ### No byte is lost or read twice

Each operation returns a prefix of the unread part of the stream and leaves the rest unread.
Reserving and refilling move bytes between the source and the buffer and change nothing of it. -/

@[simp] theorem pending_reserve (r : BufferedReader) (n : Nat) :
    (r.reserve n).pending = r.pending := by
  simp [pending, reserve]

@[simp] theorem pending_fillBuffer (r : BufferedReader) : r.fillBuffer.2.pending = r.pending := by
  simp [pending, fillBuffer, Source.readSome]

set_option maxRecDepth 20000 in
/-- A stream of 4196 bytes and a newline, read through a buffer of 4096 by a source that returns
all it is asked for.  `ReadSome(4000)` fills the buffer and leaves its last 96 bytes buffered, at
the end of the storage.  `ReadAll(100)` then reserves 4 bytes; they fit past the read pointer, so
`Reserve` leaves no room past the write pointer, the refill asks the source for `0` bytes, and
`ReadAll` returns 96 bytes while 101 are left in the stream.  From the same state `ReadUntil`
of the newline throws, although the newline is in the stream. -/
theorem readAll_short_after_readSome :
    let r₀ : BufferedReader := BufferedReader.create ⟨List.replicate 4196 7 ++ [10], [], []⟩ 4096
    let r₁ : BufferedReader := (readSome r₀ 4000).2
    (readSome r₀ 4000).1.length = 4000 ∧ (readAll r₁ 100).1.length = 96 ∧
      (readAll r₁ 100).2.source.remaining.length = 101 ∧
      (readAll r₁ 100).2.source.requests = [4096, 0] ∧
      readUntil r₁ (fun c => c == 10) =
        .error (.terminatorNotFound "EOF encountered before terminator could be found") := by
  decide

end BufferedReader

end Io

end Userver
