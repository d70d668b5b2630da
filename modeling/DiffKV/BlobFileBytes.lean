/-
Writing and reading the bytes of a blob file: `BlobFileBuilder`
(`src/blob_file_builder.cc`), `BlobFileReader`
(`src/blob_file_reader.cc`) and `BlobFileIterator`
(`src/blob_file_iterator.cc`).

A file is the string of its bytes: an append concatenates, a read
returns what is there. The iterator reads through a
`RandomAccessFileReader`, whose reads may fail for a reason of the file
system's own; the builder's and the reader's calls do not. Offsets and
sizes are 64-bit, as in the code.

The reader's blob cache keeps the plain bytes of a record under the
record's offset; the cache may drop an entry at any time, so it is a
partial function with no promise about its domain. Readahead has no
effect on what a read returns and is left out.
-/
import DiffKV.BlobEncoding

namespace DiffKV

open Lib

-- ==== builder

namespace BlobFileBuilder

/-- `BlobFileBuilder()`: the file starts with its header. -/
def create : Bytes := encodeFileHeader

variable (K : Codec) (type : CompressionType) (onlyValue : Bool)

/-- `BlobFileBuilder::Add`. -/
def add (file : Bytes) (r : BlobRecord) : BlobHandle × Bytes :=
  let encoded := K.encodeRecord type onlyValue r
  ({ offset := UInt64.ofNat file.length, size := encoded.getEncodedSize }, file ++ encoded.bytes)

/-- Records added one after the other. -/
def addAll (file : Bytes) : List BlobRecord → List BlobHandle × Bytes
  | [] => ([], file)
  | r :: rs =>
    let added := add K type onlyValue file r
    let rest := addAll added.2 rs
    (added.1 :: rest.1, rest.2)

/-- `BlobFileBuilder::Finish`. -/
def finish (file : Bytes) : Bytes := file ++ K.encodeFooter BlockHandle.null

/-- A finished file and the handles of its records. -/
def build (records : List BlobRecord) : List BlobHandle × Bytes :=
  let added := addAll K type onlyValue create records
  (added.1, finish K added.2)

end BlobFileBuilder

-- ==== reader

/-- `RandomAccessFileReader::Read`: at most `n` bytes from the offset. -/
def readAt (file : Bytes) (offset : UInt64) (n : Nat) : Bytes :=
  (file.drop offset.toNat).take n

/-- `RandomAccessFileReader`: what a read of so many bytes at an offset
returns, or the status it fails with. -/
structure RandomAccessFileReader where
  read : UInt64 → Nat → Except Status Bytes
  failed : ∀ offset n s, read offset n = .error s → s.isOk = false

/-- The reader of a file whose reads do not fail. -/
def RandomAccessFileReader.ofBytes (file : Bytes) : RandomAccessFileReader where
  read offset n := .ok (readAt file offset n)
  failed := fun _ _ _ h => nomatch h

instance : Coe Bytes RandomAccessFileReader :=
  ⟨RandomAccessFileReader.ofBytes⟩

/-- The blob cache, as one file sees it: plain bytes by offset. -/
abbrev BlobCache := UInt64 → Option Bytes

namespace BlobFileReader

variable (K : Codec)

/-- `BlobFileReader::Open`. -/
def openFile (file : Bytes) (fileSize : UInt64) : Status :=
  if fileSize < kBlobFooterSize then
    .corruption "file is too short to be a blob file"
  else
    let footer := K.decodeFooter
      (readAt file (fileSize - kBlobFooterSize) kBlobFooterSize.toNat)
    if footer.1.isOk && !footer.2.2.isEmpty then .corruption ""
    else footer.1

variable (file : Bytes) (onlyValue : Bool)

/-- `BlobFileReader::ReadRecord`: the record and its plain bytes. -/
def readRecord (handle : BlobHandle) : Except Status (BlobRecord × Bytes) :=
  let blob := readAt file handle.offset handle.size.toNat
  if handle.size ≠ UInt64.ofNat blob.length then
    .error (.corruption ("ReadRecord actual size: " ++ toString blob.length
      ++ " not equal to blob size " ++ toString handle.size.toNat))
  else
    match Codec.decodeHeader blob with
    | .error s => .error s
    | .ok (h, blob) =>
      match K.decodeRecord h onlyValue blob with
      | .error s => .error s
      | .ok (r, buffer) => .ok (r, Codec.plain blob buffer)

/-- `BlobFileReader::Get`, with the cache if there is one. -/
def get (cache : Option BlobCache) (handle : BlobHandle) :
    Except Status BlobRecord × Option BlobCache :=
  match cache.bind fun entries => entries handle.offset with
  | some blob => (BlobRecord.decodeInto K.coding onlyValue blob, cache)
  | none =>
    match readRecord K file onlyValue handle with
    | .error s => (.error s, cache)
    | .ok (r, blob) =>
      (.ok r, cache.map fun entries offset =>
        if offset = handle.offset then some blob else entries offset)

end BlobFileReader

-- ==== iterator

/-- `BlobFileIterator`. -/
structure BlobFileIterator where
  file : RandomAccessFileReader
  fileNumber : UInt64
  fileSize : UInt64
  init : Bool
  endOfBlobRecord : UInt64
  status : Status
  valid : Bool
  iterateOffset : UInt64
  curBlobRecord : BlobRecord
  curRecordOffset : UInt64
  curRecordSize : UInt64

namespace BlobFileIterator

/-- `BlobFileIterator()`. -/
def create (file : RandomAccessFileReader) (fileNumber fileSize : UInt64) : BlobFileIterator where
  file := file
  fileNumber := fileNumber
  fileSize := fileSize
  init := false
  endOfBlobRecord := 0
  status := .ok
  valid := false
  iterateOffset := 0
  curBlobRecord := { key := UserKey.empty, value := [] }
  curRecordOffset := 0
  curRecordSize := 0

variable (K : Codec)

/-- `BlobFileIterator::Init`. A footer that does not decode sets the
status and nothing more. -/
def initIterator (it : BlobFileIterator) : Bool × BlobFileIterator :=
  match it.file.read 0 kBlobHeaderSize.toNat with
  | .error s => (false, { it with status := s })
  | .ok header =>
    let status := decodeFileHeader header
    if status.isOk then
      match it.file.read (it.fileSize - kBlobFooterSize)
          kBlobFooterSize.toNat with
      | .error s => (false, { it with status := s })
      | .ok slice =>
        let footer := K.decodeFooter slice
        (true, { it with
          status := footer.1
          endOfBlobRecord :=
            it.fileSize - kBlobFooterSize - footer.2.1.size
          init := true })
    else (false, { it with status := status })

/-- The reads of `GetBlobRecord`: the header of the record at the
offset, then the record. -/
def readRecordAt (file : RandomAccessFileReader) (offset : UInt64) :
    Except Status (RecordHeader × BlobRecord) :=
  match file.read offset kRecordHeaderSize with
  | .error s => .error s
  | .ok buffer =>
    match Codec.decodeHeader buffer with
    | .error s => .error s
    | .ok (h, _) =>
      match file.read (offset + UInt64.ofNat kRecordHeaderSize)
          h.recordSize.toNat with
      | .error s => .error s
      | .ok slice =>
        match K.decodeRecord h false slice with
        | .error s => .error s
        | .ok (r, _) => .ok (h, r)

/-- `BlobFileIterator::GetBlobRecord`. -/
def getBlobRecord (it : BlobFileIterator) : BlobFileIterator :=
  match readRecordAt K it.file it.iterateOffset with
  | .error s => { it with status := s }
  | .ok (h, r) =>
    let size := UInt64.ofNat kRecordHeaderSize + h.recordSize.toUInt64
    { it with
      status := .ok
      curBlobRecord := r
      curRecordOffset := it.iterateOffset
      curRecordSize := size
      iterateOffset := it.iterateOffset + size
      valid := true }

/-- `BlobFileIterator::PrefetchAndGet`. -/
def prefetchAndGet (it : BlobFileIterator) : BlobFileIterator :=
  if it.iterateOffset ≥ it.endOfBlobRecord then { it with valid := false }
  else getBlobRecord K it

/-- `BlobFileIterator::SeekToFirst`. -/
def seekToFirst (it : BlobFileIterator) : BlobFileIterator :=
  let ready := if it.init then (true, it) else initIterator K it
  if ready.1 then
    prefetchAndGet K { ready.2 with
      status := .ok
      iterateOffset := kBlobHeaderSize }
  else ready.2

/-- `BlobFileIterator::Next`. -/
def next (it : BlobFileIterator) : BlobFileIterator := prefetchAndGet K it

/-- The loop of `IterateForPrev`, with `total_length`; it is cut off after
some rounds. A header that cannot be read ends it where it stands. -/
def iterateForPrevLoop (offset : UInt64) : Nat → BlobFileIterator → UInt64 → Option BlobFileIterator
  | 0, _, _ => none
  | rounds + 1, it, totalLength =>
    if it.iterateOffset < offset then
      match it.file.read it.iterateOffset kRecordHeaderSize with
      | .error s => some { it with status := s }
      | .ok buffer =>
        match Codec.decodeHeader buffer with
        | .error s => some { it with status := s }
        | .ok (h, _) =>
          let totalLength :=
            UInt64.ofNat kRecordHeaderSize + h.recordSize.toUInt64
          iterateForPrevLoop offset rounds
            { it with iterateOffset := it.iterateOffset + totalLength }
            totalLength
    else
      some { it with
        iterateOffset :=
          if it.iterateOffset > offset then it.iterateOffset - totalLength
          else it.iterateOffset
        valid := false }

/-- `BlobFileIterator::IterateForPrev`. -/
def iterateForPrev (rounds : Nat) (it : BlobFileIterator) (offset : UInt64) :
    Option BlobFileIterator :=
  let ready := if it.init then (true, it) else initIterator K it
  if ready.1 then
    if offset ≥ ready.2.endOfBlobRecord then
      some { ready.2 with
        iterateOffset := offset
        status := .invalidArgument "Out of bound" }
    else
      iterateForPrevLoop offset rounds { ready.2 with
        status := .ok
        iterateOffset := kBlobHeaderSize } 0
  else some ready.2

/-- `BlobFileIterator::Valid`. -/
def isValid (it : BlobFileIterator) : Bool := it.valid && it.status.isOk

/-- `BlobFileIterator::GetBlobIndex`. -/
def getBlobIndex (it : BlobFileIterator) : BlobIndex where
  fileNumber := it.fileNumber
  blobHandle := { offset := it.curRecordOffset, size := it.curRecordSize }

/-- The loop `for (; it.Valid(); it.Next())` from here visits these
records at these places and ends with this status. -/
inductive Yields : BlobFileIterator → List (BlobIndex × BlobRecord) → Status → Prop where
  | done {it} (h : it.isValid = false) : Yields it [] it.status
  | more {it items s} (h : it.isValid = true) (rest : Yields (it.next K) items s) :
      Yields it ((it.getBlobIndex, it.curBlobRecord) :: items) s

end BlobFileIterator

end DiffKV
