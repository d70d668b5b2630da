/-
The state of a running database and the write path
(`TitanDBImpl` of `src/db_impl.{h,cc}`, `ForegroundBuilder` of
`src/table_builder.{h,cc}`, `BlobStorage::Get`).

One column family is modelled; the file set may hold others. The base DB
is the map of the latest entries of the column family and the latest
sequence number: a write is atomic, a read sees the latest write.

A directory is a map from file numbers to files. Files that could not be
created and writes of the base DB that fail are arguments; appends to
open files and the manifest do not fail here. A function returns `none`
where a 64-bit counter would wrap round.
-/
import DiffKV.BlobFile
import DiffKV.FileSet

namespace DiffKV

open Lib

-- ==== base DB

/-- An entry of the LSM tree: the value type tells a value from an
encoded blob index. -/
structure LsmEntry where
  value : Bytes
  isBlobIndex : Bool := false
  deriving DecidableEq, Repr

/-- The entry `WriteBatchInternal::PutBlobIndex` makes. -/
def LsmEntry.ofIndex (C : Coding) (index : BlobIndex) : LsmEntry :=
  { value := index.encodeTo C, isBlobIndex := true }

/-- The blob index an entry holds, if it holds one. -/
def LsmEntry.blobIndex (C : Coding) (entry : LsmEntry) : Option BlobIndex :=
  if entry.isBlobIndex then
    (BlobIndex.decodeFrom C entry.value).toOption.map Prod.fst
  else none

theorem LsmEntry.blobIndex_eq_some_iff {C : Coding} {entry : LsmEntry} {i : BlobIndex} :
    entry.blobIndex C = some i ↔ entry.isBlobIndex = true
      ∧ ∃ rest, BlobIndex.decodeFrom C entry.value = .ok (i, rest) := by
  unfold LsmEntry.blobIndex
  cases entry.isBlobIndex with
  | false => simp
  | true =>
    cases hd : BlobIndex.decodeFrom C entry.value with
    | error s => simp [Except.toOption]
    | ok p => simp [Except.toOption, Prod.ext_iff]

@[simp] theorem LsmEntry.blobIndex_inline (C : Coding) (value : Bytes) :
    ({ value } : LsmEntry).blobIndex C = none := rfl

@[simp] theorem LsmEntry.blobIndex_ofIndex (C : Coding) (i : BlobIndex) :
    (LsmEntry.ofIndex C i).blobIndex C = some i := by
  simp [blobIndex, ofIndex, Except.toOption]

/-- `WriteBatch`, with the puts of one column family. -/
abbrev WriteBatch := List (UserKey × LsmEntry)

/-- The blob indexes of a batch. -/
def WriteBatch.indexes (C : Coding) (batch : WriteBatch) : List (UserKey × BlobIndex) :=
  batch.filterMap fun e => (e.2.blobIndex C).map fun i => (e.1, i)

-- ==== state

/-- What the functions of one column family are compiled and configured
with. -/
structure Config where
  coding : Coding
  /-- `std::hash<std::string>` -/
  hash : UserKey → Nat
  encodedSize : BlobRecord → UInt64
  cfId : UInt32 := 0
  dbOptions : TitanDBOptions := {}
  cfOptions : TitanCFOptions := {}

/-- One of the builders of `ForegroundBuilder`: `handle_[b]`, whose
`builder_[b]` is the file on disk, and `finished_files_[b]`. -/
structure Shard where
  handle : Option UInt64 := none
  finished : List BlobFileMeta := []

/-- A Put between its two steps: `builder.Add` has returned, the batch is
not yet written to the base DB. -/
structure PendingPut where
  key : UserKey
  value : Bytes
  batch : WriteBatch

/-- An element of `rewrite_batches_`: the batch, and the key and blob
index of its `GarbageCollectionWriteCallback`. -/
structure RewriteBatch where
  batch : WriteBatch
  key : UserKey
  blobIndex : BlobIndex

/-- Where a GC job stands. -/
inductive GcStage where
  /-- at the head of the loop of `DoRunGC` -/
  | run
  /-- a live record goes to the `ForegroundBuilder` -/
  | add (index : BlobIndex) (record : BlobRecord)
  /-- its batch goes to `base_db_->Write` -/
  | write (index : BlobIndex) (record : BlobRecord) (batch : WriteBatch)
  /-- in `InstallOutputBlobFiles` -/
  | install
  /-- at the head of the loop of `RewriteValidKeyToLSM` -/
  | rewrite (rest : List RewriteBatch)
  /-- in `DeleteInputBlobFiles` -/
  | deleteInputs
  /-- at `ReleaseGcFiles` -/
  | release
  | done

/-- `BlobGCJob`. -/
structure GcJob where
  inputs : List UInt64
  /-- what the merge iterator has yet to return -/
  todo : List (BlobIndex × BlobRecord)
  stage : GcStage := .run
  /-- the variable `s` -/
  status : Status := .ok
  /-- `blob_file_builders_` and behind them the open one -/
  outputs : List UInt64 := []
  /-- `file_size`, of the open one -/
  fileSize : Nat := 0
  rewriteBatches : List RewriteBatch := []
  /-- history: the records found live and copied, with the batch that
  points the key at the copy -/
  relocated : List RewriteBatch := []
  /-- history: the records found live whose key was not pointed at a copy -/
  missed : List BlobIndex := []
  /-- history: `DeleteInputBlobFiles` returned OK -/
  deleted : Bool := false

/-- A running database. -/
structure Db where
  lsm : Map UserKey LsmEntry := Table.empty
  /-- `GetLatestSequenceNumber()` -/
  seq : SequenceNumber := 0
  fileSet : BlobFileSet
  disk : Map UInt64 BlobFile := Table.empty
  shards : List Shard := []
  puts : List PendingPut := []
  jobs : List GcJob := []
  snapshots : List SequenceNumber := []
  /-- the purges between their two steps, by the sequence they read -/
  purges : List SequenceNumber := []

/-- Replace the storage of a column family, if it is there. -/
def BlobFileSet.onStorage (fs : BlobFileSet) (cfId : UInt32)
    (f : BlobStorage → BlobStorage) : BlobFileSet :=
  { fs with
    columnFamilies := fs.columnFamilies.modify cfId (fun cf => (cf.1, f cf.2)) fun _ => rfl }

/-- `storage->AddBuildingFile(number)`. -/
def BlobFileSet.addBuildingFile (fs : BlobFileSet) (cfId : UInt32)
    (number : UInt64) : BlobFileSet :=
  fs.onStorage cfId (·.addBuildingFile number)

namespace Db

variable (cfg : Config)

/-- `db_->Write(options, &batch)`. -/
def write (db : Db) (batch : WriteBatch) : Db :=
  { db with
    lsm := batch.foldl (fun m e => m.insert e.1 e.2) db.lsm
    seq := db.seq + batch.length }

/-- `GetBlobStorage(cf_id)`. -/
def storage (db : Db) : Option BlobStorage :=
  db.fileSet.getBlobStorage cfg.cfId

-- ==== files

/-- `FileManager::NewFile`; `created` is whether the file could be
created. -/
def newFile (db : Db) (created : Bool) : Option (Except Status UInt64 × Db) :=
  let (number, fileSet) := db.fileSet.newFileNumber
  if number < fileSet.nextFileNumber then
    if created then
      some (.ok number, { db with fileSet, disk := db.disk.insert number BlobFile.header })
    else some (.error (.ioError "NewWritableFile"), { db with fileSet })
  else none

/-- `BlobFileBuilder::Add` on the file `number`: the blob index of the
record. -/
def append (db : Db) (number : UInt64) (record : BlobRecord) : Option (BlobIndex × Db) :=
  match db.disk.lookup number with
  | none => none
  | some file =>
    match file.add cfg.encodedSize record with
    | none => none
    | some (blobHandle, file) =>
      some ({ fileNumber := number, blobHandle }, { db with disk := db.disk.insert number file })

/-- The edit of `BatchFinishFiles`. -/
def finishEdit (files : List BlobFileMeta) : VersionEdit :=
  files.foldl VersionEdit.addBlobFile (({} : VersionEdit).setColumnFamilyID cfg.cfId)

/-- `FileManager::BatchFinishFiles`, the files synced and closed. -/
def batchFinishFiles (db : Db) (files : List BlobFileMeta) : Status × Db :=
  let (s, fileSet) := db.fileSet.logAndApply cfg.coding
    (finishEdit cfg files) .ok
  (s, { db with fileSet })

/-- `FileManager::BatchDeleteFiles`: the status is that of the last
`DeleteFile`. -/
def batchDeleteFiles (db : Db) (numbers : List UInt64)
    (deleteFile : UInt64 → Status) : Status × Db :=
  ((numbers.map deleteFile).getLastD .ok,
    { db with
      disk := numbers.foldl (fun disk n => if (deleteFile n).isOk then disk.erase n else disk)
        db.disk })

end Db

end DiffKV
