/-
What a `TitanDBIterator` (`src/db_iter.h`) shows of its records: `value`
after a move, and `Scan`, with `TitanDBImpl::Scan` (`src/db_impl.cc`).

A record is read into slices, and their bytes are in the buffer the read
was given. `GetBlobValue` resets the buffer before it reads; `Scan` has
one record and one buffer for all reads, and keeps what they hold. A read
that fails leaves the record alone, unless it fails because bytes are left
over: then it has set the record, to memory that goes with the call.

The base iterator is what it visits: the entries from the start key on.
-/
import DiffKV.Reads

namespace DiffKV

open Lib

-- ==== slices

/-- What a slice shows when its memory is given back: an empty slice
needs none. -/
def givenBack (slice : Option Bytes) : Option Bytes :=
  if slice = some [] then slice else none

/-- The value that `BlobFileReader::ReadRecord` decodes, also if bytes are
left over. -/
def BlobFileReader.decodes (K : Codec) (file : Bytes) (onlyValue : Bool)
    (handle : BlobHandle) : Option Bytes :=
  let blob := readAt file handle.offset handle.size.toNat
  if handle.size ≠ UInt64.ofNat blob.length then none
  else
    match Codec.decodeHeader blob with
    | .error _ => none
    | .ok (h, blob) =>
      let input := blob.take h.recordSize.toNat
      match (if h.compression = .kNoCompression then .ok input
        else K.uncompress h.compression input) with
      | .error _ => none
      | .ok plain =>
        match BlobRecord.decodeFrom K.coding onlyValue plain with
        | .error _ => none
        | .ok (r, _) => some r.value

namespace BlobFilePrefetcher

variable (K : Codec) (p : BlobFilePrefetcher) (handle : BlobHandle)

/-- The value a read sets in the record it is given. -/
def decodes : Option Bytes :=
  match p.get K handle with
  | .ok r => some r.value
  | .error _ => BlobFileReader.decodes K p.file p.onlyValue handle

/-- `record->value` after a read; `slice` is what it was before. -/
def leaves (slice : Option Bytes) : Option Bytes :=
  match p.get K handle with
  | .ok r => some r.value
  | .error _ =>
    match p.decodes K handle with
    | none => slice
    | some v => givenBack (some v)

end BlobFilePrefetcher

-- ==== iterator

/-- A `TitanDBIterator` with what `record_.value` shows. -/
structure BufferedIterator extends TitanDBIterator where
  slice : Option Bytes

namespace BufferedIterator

def create (keyOnly : Bool) : BufferedIterator where
  toTitanDBIterator := .create keyOnly
  slice := some []

/-- `TitanDBIterator::Valid`. -/
def valid (it : BufferedIterator) : Bool := it.iter.entry.isSome

/-- `TitanDBIterator::value`, if its memory is there. -/
def value? (it : BufferedIterator) : Option Bytes :=
  match it.iter.entry with
  | none => none
  | some e =>
    if it.keyOnly then some []
    else if e.isBlob then it.slice
    else some e.value

variable (K : Codec) (dir : BlobDir) (s : BlobStorage)

/-- The record after `GetBlobValue`. -/
def sliceAfter (it : BufferedIterator) (e : BaseEntry) : Option Bytes :=
  match BlobIndex.decodeInto K.coding e.value with
  | .error _ => it.slice
  | .ok index =>
    match it.findPrefetcher K dir s index.fileNumber with
    | .error _ => it.slice
    | .ok p => p.leaves K index.blobHandle (givenBack it.slice)

/-- `Seek`, `SeekToFirst`, `SeekToLast`, `SeekForPrev`, `Next` and
`Prev`, by where they take the base iterator. -/
def move (it : BufferedIterator) (iter : ArenaWrappedDBIter) : BufferedIterator where
  toTitanDBIterator := it.toTitanDBIterator.move K dir s iter
  slice :=
    match iter.entry with
    | none => it.slice
    | some e =>
      if !e.isBlob || it.keyOnly then it.slice
      else it.sliceAfter K dir s e

end BufferedIterator

-- ==== Scan

/-- The first loop of `Scan`: the slots it has filled, each with its
value and its index, and whether it returned from the middle. -/
structure ScanCollected where
  it : TitanDBIterator
  keys : List Bytes
  slots : List (Bytes × BlobIndex)
  stopped : Bool

/-- The slot in front of those filled after it. -/
def ScanCollected.cons (key : Bytes) (slot : Bytes × BlobIndex)
    (c : ScanCollected) : ScanCollected :=
  { c with keys := key :: c.keys, slots := slot :: c.slots }

/-- What `Scan` returns in `len`, and the caller's vectors. -/
structure ScanResult where
  len : Nat
  keys : List Bytes
  values : List Bytes
  deriving DecidableEq, Repr

namespace TitanDBIterator

variable (K : Codec) (dir : BlobDir) (s : BlobStorage)

/-- The first loop of `TitanDBIterator::Scan`, over the caller's values
in the `len` slots and the entries visited. -/
def collect (it : TitanDBIterator) : List Bytes → List (Bytes × BaseEntry) → ScanCollected
  | v :: values, (key, e) :: visible =>
    if !e.isBlob || it.keyOnly then
      -- the slot keeps the index it was made with
      (collect it values visible).cons key (e.value, ⟨0, ⟨0, 0⟩⟩)
    else
      match BlobIndex.decodeInto K.coding e.value with
      | .error _ => ⟨it, [], [], true⟩
      | .ok index =>
        match it.findPrefetcher K dir s index.fileNumber with
        | .error _ => ⟨it, [], [], true⟩
        | .ok p =>
          (collect { it with
              files := it.files.insert index.fileNumber p }
            values visible).cons key (v, index)
  | _, _ => ⟨it, [], [], false⟩

/-- The second loop: a read for each slot with an empty value. Its result
is `none` if it goes through the end iterator of `files_` or copies from
memory that was given back. -/
def fetch (files : Map UInt64 BlobFilePrefetcher) (slice : Option Bytes) :
    List (Bytes × BlobIndex) → Option (List Bytes)
  | [] => some []
  | (v, index) :: slots =>
    if v.isEmpty then
      match files.lookup index.fileNumber with
      | none => none
      | some p =>
        match p.leaves K index.blobHandle slice with
        | none => none
        | some w => (fetch files (some w) slots).map (w :: ·)
    else (fetch files slice slots).map (v :: ·)

/-- `TitanDBIterator::Scan`. -/
def scan (it : TitanDBIterator) (visible : List (Bytes × BaseEntry))
    (len : Nat) (keys values : List Bytes) : Option ScanResult :=
  let c := collect K dir s it (values.take len) visible
  let keys := c.keys ++ keys.drop c.keys.length
  if c.stopped then
    -- `len` is as it was given
    some { len, keys,
           values := c.slots.map Prod.fst ++ values.drop c.slots.length }
  else
    (fetch K c.it.files (some []) c.slots).map fun fetched =>
      { len := c.keys.length, keys,
        values := fetched ++ values.drop fetched.length }

end TitanDBIterator

/-- `resize`, if the vector is shorter. -/
def resized (len : Nat) (v : List Bytes) : List Bytes :=
  v ++ List.replicate (len - v.length) []

/-- `TitanDBImpl::Scan`. -/
def TitanDBImpl.scan (K : Codec) (dir : BlobDir) (s : BlobStorage)
    (visible : List (Bytes × BaseEntry)) (len : Nat)
    (keys values : List Bytes) : Option ScanResult :=
  (TitanDBIterator.create false).scan K dir s visible len (resized len keys) (resized len values)

end DiffKV
