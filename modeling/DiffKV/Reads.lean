/-
Reads from outside: `TitanDBImpl::GetImpl` (`src/db_impl.cc`) and
`TitanDBIterator` (`src/db_iter.h`), and `BlobStorage::Get`
(`src/blob_storage.cc`) as the steps it takes beside those that add
files.

What the base DB finds for a key at a snapshot is the input of both
reads. The iterator's storage is behind a pointer, so the functions take
the storage and the directory as they are at the call. `Seek`, `Next`
and the other moves differ in where they take the base iterator only.

`FindFile` and `FindBuildingFile` hold the mutex of the storage for one
lookup each. They return weak pointers: a file that stays in `files_`
stays alive, but the reader of a file being built goes when the file is
installed, unless another call holds it.
-/
import DiffKV.BlobRead
import DiffKV.Lib.Machine

namespace DiffKV

open Lib

/-- `DecodeInto` at a blob index: nothing may be left over. -/
def BlobIndex.decodeInto (C : Coding) (src : Bytes) : Except Status BlobIndex :=
  match BlobIndex.decodeFrom C src with
  | .error s => .error s
  | .ok (index, rest) =>
    if rest.isEmpty then .ok index else .error (.corruption "")

/-- What the base DB finds for a key: a value, or a blob index. -/
structure BaseEntry where
  value : Bytes
  isBlob : Bool
  deriving DecidableEq, Repr

-- ==== GetImpl

/-- `TitanDBImpl::GetImpl`, from what the base DB's `GetImpl` returned
and the storage of the column family, if it is found. -/
def TitanDBImpl.getImpl (K : Codec) (dir : BlobDir) (cfId : UInt32)
    (storage : Option BlobStorage) (base : Except Status BaseEntry) :
    Except Status Bytes :=
  match base with
  | .error s => .error s
  | .ok e =>
    if e.isBlob then
      match BlobIndex.decodeFrom K.coding e.value with
      | .error s => .error s
      | .ok (index, _) =>
        match storage with
        | none =>
          .error (.notFound ("Column family id: " ++ toString cfId.toNat ++ " not Found."))
        | some s => (s.get K dir index).map BlobRecord.value
    else .ok e.value

-- ==== iterator

/-- `ArenaWrappedDBIter`: the entry it stands on, if it is valid. -/
structure ArenaWrappedDBIter where
  entry : Option BaseEntry
  status : Status

/-- `TitanDBIterator`; `ownStatus` is its field `status_`. -/
structure TitanDBIterator where
  keyOnly : Bool
  iter : ArenaWrappedDBIter
  files : Map UInt64 BlobFilePrefetcher
  ownStatus : Status
  record : BlobRecord

namespace TitanDBIterator

/-- `TitanDBIterator()`, before the first move. -/
def create (keyOnly : Bool) : TitanDBIterator where
  keyOnly := keyOnly
  iter := { entry := none, status := .ok }
  files := Table.empty
  ownStatus := .ok
  record := { key := UserKey.empty, value := [] }

/-- `TitanDBIterator::status`. -/
def status (it : TitanDBIterator) : Status :=
  if it.ownStatus.isOk then it.iter.status else it.ownStatus

/-- `TitanDBIterator::value`; called on a valid iterator only. -/
def value (it : TitanDBIterator) : Bytes :=
  match it.iter.entry with
  | none => []
  | some e =>
    if it.keyOnly then []
    else if e.isBlob then it.record.value
    else e.value

variable (K : Codec) (dir : BlobDir) (s : BlobStorage)

/-- The prefetcher in `files_`, or else a new one. -/
def findPrefetcher (it : TitanDBIterator) (number : UInt64) : Except Status BlobFilePrefetcher :=
  match it.files.lookup number with
  | some p => .ok p
  | none => s.newPrefetcher K dir number

/-- `TitanDBIterator::GetBlobValue`, at the entry `e`. -/
def getBlobValue (it : TitanDBIterator) (e : BaseEntry) : TitanDBIterator :=
  match BlobIndex.decodeInto K.coding e.value with
  | .error s => { it with ownStatus := s }
  | .ok index =>
    match findPrefetcher K dir s it index.fileNumber with
    | .error s => { it with ownStatus := s }
    | .ok p =>
      let it := { it with files := it.files.insert index.fileNumber p }
      match p.get K index.blobHandle with
      | .error s => { it with ownStatus := s }
      | .ok r => { it with ownStatus := .ok, record := r }

/-- `ShouldGetBlobValue` and `GetBlobValue`, after a move of the base
iterator. -/
def move (it : TitanDBIterator) (iter : ArenaWrappedDBIter) :
    TitanDBIterator :=
  let it := { it with iter }
  match iter.entry with
  | none => { it with ownStatus := iter.status }
  | some e =>
    if !e.isBlob || it.keyOnly then { it with ownStatus := iter.status }
    else getBlobValue K dir s it e

end TitanDBIterator

-- ==== BlobStorage::Get, by lookups

/-- Where a call of `BlobStorage::Get` stands. -/
inductive GetStage where
  /-- at its lookup in `files_` -/
  | files
  /-- at its lookup in `building_files_` -/
  | building
  /-- at the lock of the weak pointer that the second lookup found -/
  | reader
  /-- at its read of the file -/
  | read
  /-- it has returned this without a read -/
  | missing (s : Status)
  deriving DecidableEq, Repr

/-- A call of `BlobStorage::Get` for an index into the file `number`.
`present` says whether the storage had the file when it began. -/
structure GetCall where
  number : UInt64
  stage : GetStage
  present : Bool
  deriving DecidableEq, Repr

/-- The storage has the file, installed or being built. -/
def BlobStorage.hasFile (s : BlobStorage) (number : UInt64) : Bool :=
  (s.findFile number).isSome || s.findBuildingFile number

/-- The next step of a call; `held` says whether another call holds the
reader it locks. -/
def GetCall.next (s : BlobStorage) (held : Bool) (g : GetCall) : Option GetCall :=
  let notExist : GetStage := .missing (.corruption ("File "
    ++ toString g.number.toNat ++ " not exist"))
  match g.stage with
  | .files =>
    some { g with
      stage :=
        if (s.findFile g.number).isSome then .read
        else if s.dbOptions.sepBeforeFlush then .building
        else .missing (.corruption ("Missing blob file: " ++ toString g.number.toNat)) }
  | .building =>
    some { g with
      stage := if s.findBuildingFile g.number then .reader else notExist }
  | .reader =>
    some { g with
      stage := if s.findBuildingFile g.number || held then .read else notExist }
  | .read => none
  | .missing _ => none

/-- A storage and the calls of `Get` on it. -/
structure StorageReads where
  storage : BlobStorage
  gets : List GetCall := []

namespace StorageReads

/-- The steps of the threads. -/
inductive Action where
  | get (number : UInt64)
  | next (i : Nat) (held : Bool)
  | addBuildingFile (number : UInt64)
  | addBlobFile (file : BlobFileMeta)

/-- One step. Only a `ForegroundBuilder` adds files being built, and
there is one only with `sep_before_flush`. -/
def step (st : StorageReads) : Action → Option StorageReads
  | .get number =>
    some { st with
      gets := st.gets ++ [{ number, stage := .files,
                            present := st.storage.hasFile number }] }
  | .next i held =>
    match st.gets[i]? with
    | none => none
    | some g =>
      match g.next st.storage held with
      | none => none
      | some g => some { st with gets := st.gets.set i g }
  | .addBuildingFile number =>
    if st.storage.dbOptions.sepBeforeFlush then
      some { st with storage := st.storage.addBuildingFile number }
    else none
  | .addBlobFile file =>
    some { st with storage := st.storage.addBlobFile file }

end StorageReads

end DiffKV
