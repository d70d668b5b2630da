/-
`TitanTableBuilder` (`src/table_builder.{h,cc}`): the table builder that
flushes and compactions of the base DB run their entries through.

An entry leaves it for the base table in one of four ways. A large value
is separated: appended to a blob file of the builder, its index written
in its place. In the fallback mode an index is replaced by the value it
points at. With `level_merge` on, a value in a sorted file of a lower
level, or in one marked for merging, is copied to a blob file of the
builder. Everything else passes through.

Blob files are modelled by their bytes. No call to the file system
fails, and nothing else changes the storage while the builder runs; the
answer of `ShouldGCLowLevel` is a field. The entries are internal keys
that parse.
-/
import DiffKV.BlobRead

namespace DiffKV

open Lib

-- ==== entries

/-- `rocksdb::ValueType`, as far as the builder tells types apart. -/
inductive ValueType where
  | kTypeValue
  | kTypeBlobIndex
  | other (code : UInt8)
  deriving DecidableEq, Repr

/-- A parsed internal key and its value. -/
structure InternalEntry where
  userKey : UserKey
  sequence : SequenceNumber
  type : ValueType
  value : Bytes
  deriving DecidableEq, Repr

/-- What an entry stands for: a value, or whatever another type makes of
its bytes. -/
inductive Resolved where
  | value (v : Bytes)
  | other (code : UInt8) (v : Bytes)
  deriving DecidableEq, Repr

/-- Resolve an entry against a storage. -/
def InternalEntry.resolve (K : Codec) (dir : BlobDir) (s : BlobStorage)
    (e : InternalEntry) : Except Status Resolved :=
  match e.type with
  | .kTypeValue => .ok (.value e.value)
  | .other code => .ok (.other code e.value)
  | .kTypeBlobIndex =>
    match BlobIndex.decodeFrom K.coding e.value with
    | .error s => .error s
    | .ok (index, _) => (s.get K dir index).map fun r => .value r.value

-- ==== builder

/-- `TitanBlobRunMode`. -/
inductive TitanBlobRunMode where
  | kNormal | kReadOnly | kFallback
  deriving DecidableEq, Repr

/-- What a `TitanTableBuilder` is constructed with. -/
structure TableBuilderConfig where
  codec : Codec
  cfId : UInt32 := 0
  cfOptions : TitanCFOptions
  blobRunMode : TitanBlobRunMode := .kNormal
  /-- `cf_options_.blob_file_compression` -/
  compression : CompressionType := .kNoCompression
  targetLevel : Int32
  mergeLevel : Int32
  mergeLowLevel : Bool

/-- `blob_handle_` and `blob_builder_`, whose file is in the
directory. -/
structure OpenBlobFile where
  number : UInt64
  numEntries : UInt64 := 0
  keyRange : UserKey × UserKey := (UserKey.empty, UserKey.empty)

/-- `TitanTableBuilder`, with the file set and the directory it works
on. -/
structure TitanTableBuilder where
  fileSet : BlobFileSet
  dir : BlobDir
  status : Status := .ok
  blob : Option OpenBlobFile := none
  finishedBlobs : List BlobFileMeta := []
  encounteredFiles : Map UInt64 (Option BlobFileMeta) := Table.empty
  mergingFiles : Map UInt64 BlobFilePrefetcher := Table.empty
  /-- the entries `base_builder_` was given -/
  table : List InternalEntry := []

namespace TitanTableBuilder

variable (cfg : TableBuilderConfig)

/-- `base_builder_->Add`. -/
def emit (b : TitanTableBuilder) (e : InternalEntry) : TitanTableBuilder :=
  { b with table := b.table ++ [e] }

/-- The blob file that is open, a new one if there is none. -/
def openBlobFile (b : TitanTableBuilder) : OpenBlobFile × TitanTableBuilder :=
  match b.blob with
  | some blob => (blob, b)
  | none =>
    let (number, fileSet) := b.fileSet.newFileNumber
    let blob : OpenBlobFile := { number }
    (blob, { b with
      fileSet
      blob := some blob
      dir := b.dir.insert number BlobFileBuilder.create })

/-- The file `FinishBlobFile` makes of an open one. -/
def finishedMeta (blob : OpenBlobFile) (file : Bytes) : BlobFileMeta :=
  ({ fileNumber := blob.number
     fileSize := UInt64.ofNat file.length
     fileEntries := blob.numEntries
     fileLevel := cfg.targetLevel.toUInt32
     smallestKey := blob.keyRange.1
     largestKey := blob.keyRange.2
     fileType := BlobWriter.tableBuilder.fileType {} }
    : BlobFileMeta).fileStateTransit .kFlushOrCompactionOutput

/-- `TitanTableBuilder::FinishBlobFile`. -/
def finishBlobFile (b : TitanTableBuilder) : TitanTableBuilder :=
  match b.blob with
  | none => b
  | some blob =>
    let file := BlobFileBuilder.finish cfg.codec
      ((b.dir.lookup blob.number).getD [])
    { b with
      dir := b.dir.insert blob.number file
      finishedBlobs := b.finishedBlobs ++ [finishedMeta cfg blob file]
      blob := none }

/-- `TitanTableBuilder::AddBlob`: the encoded index of the record. -/
def addBlob (b : TitanTableBuilder) (key : UserKey) (value : Bytes) : Bytes × TitanTableBuilder :=
  let (blob, b) := b.openBlobFile
  let (blobHandle, file) := BlobFileBuilder.add cfg.codec cfg.compression
    (BlobWriter.tableBuilder.onlyValue cfg.cfOptions)
    ((b.dir.lookup blob.number).getD []) { key, value }
  let index : BlobIndex := { fileNumber := blob.number, blobHandle }
  let b := { b with
    dir := b.dir.insert blob.number file
    blob := some { blob with
      numEntries := blob.numEntries + 1
      keyRange := BlobFile.extendRange cfg.cfOptions.comparator blob.keyRange key } }
  (index.encodeTo cfg.codec.coding,
    if file.length ≥ cfg.cfOptions.blobFileTargetSize then
      b.finishBlobFile cfg
    else b)

/-- `TitanTableBuilder::ShouldMerge`. -/
def shouldMerge : Option BlobFileMeta → Bool
  | none => false
  | some file =>
    file.fileType = kSorted
      && ((decide (cfg.targetLevel ≥ cfg.mergeLevel)
          && decide (file.fileLevel.toInt32 < cfg.targetLevel))
        || file.state = .kToMerge || file.state = .kToGC)

/-- The file of a number, looked up once. -/
def encounter (b : TitanTableBuilder) (s : BlobStorage) (number : UInt64) :
    Option BlobFileMeta × TitanTableBuilder :=
  match b.encounteredFiles.lookup number with
  | some file => (file, b)
  | none =>
    let file := s.findFile number
    (file, { b with
      encounteredFiles := b.encounteredFiles.insert number file })

/-- The prefetcher of a file, made once. -/
def prefetcher (b : TitanTableBuilder) (s : BlobStorage) (number : UInt64) :
    Except Status (BlobFilePrefetcher × TitanTableBuilder) :=
  match b.mergingFiles.lookup number with
  | some p => .ok (p, b)
  | none =>
    match s.newPrefetcher cfg.codec b.dir number with
    | .error e => .error e
    | .ok p =>
      .ok (p, { b with mergingFiles := b.mergingFiles.insert number p })

/-- Write a value to the open blob file and its index to the table. -/
def separate (b : TitanTableBuilder) (e : InternalEntry) (value : Bytes) :
    TitanTableBuilder :=
  let (index, b) := b.addBlob cfg e.userKey value
  b.emit { e with type := .kTypeBlobIndex, value := index }

/-- The branch of `Add` that replaces an index by its value. An index
that cannot be read goes to the table as it is. -/
def ingest (b : TitanTableBuilder) (s : BlobStorage) (e : InternalEntry) :
    TitanTableBuilder :=
  match BlobIndex.decodeFrom cfg.codec.coding e.value with
  | .error status => { b with status }
  | .ok (index, _) =>
    match s.get cfg.codec b.dir index with
    | .ok record =>
      b.emit { e with type := .kTypeValue, value := record.value }
    | .error _ => b.emit e

/-- The branch of `Add` that merges a value into a new blob file. -/
def merge (b : TitanTableBuilder) (s : BlobStorage) (e : InternalEntry) :
    TitanTableBuilder :=
  match BlobIndex.decodeFrom cfg.codec.coding e.value with
  | .error status => { b with status }
  | .ok (index, _) =>
    let (file, b) := b.encounter s index.fileNumber
    if shouldMerge cfg file then
      match b.prefetcher cfg s index.fileNumber with
      | .error status => { b with status }.emit e
      | .ok (p, b) =>
        match p.get cfg.codec index.blobHandle with
        | .ok record => b.separate cfg e record.value
        | .error _ => b.emit e
    else b.emit e

/-- `TitanTableBuilder::Add`. -/
def add (s : BlobStorage) (b : TitanTableBuilder) (e : InternalEntry) :
    TitanTableBuilder :=
  if !b.status.isOk then b
  else if e.type = .kTypeBlobIndex && cfg.blobRunMode = .kFallback then
    b.ingest cfg s e
  else if e.type = .kTypeValue && decide (e.value.length ≥ cfg.cfOptions.minBlobSize)
      && cfg.blobRunMode = .kNormal then
    b.separate cfg e e.value
  else if e.type = .kTypeBlobIndex && cfg.cfOptions.levelMerge
      && (decide (cfg.targetLevel ≥ cfg.mergeLevel) || cfg.mergeLowLevel)
      && cfg.blobRunMode = .kNormal then
    b.merge cfg s e
  else b.emit e

/-- The entries of a flush or compaction, one after the other. -/
def addAll (s : BlobStorage) (b : TitanTableBuilder)
    (entries : List InternalEntry) : TitanTableBuilder :=
  entries.foldl (add cfg s) b

/-- The edit of `BatchFinishFiles`. -/
def installEdit (files : List BlobFileMeta) : VersionEdit :=
  files.foldl VersionEdit.addBlobFile (({} : VersionEdit).setColumnFamilyID cfg.cfId)

/-- `TitanTableBuilder::Finish`: the status is that of
`BatchFinishFiles`. -/
def finish (b : TitanTableBuilder) : TitanTableBuilder :=
  let b := b.finishBlobFile cfg
  let (status, fileSet) := b.fileSet.logAndApply cfg.codec.coding
    (installEdit cfg b.finishedBlobs) .ok
  { b with fileSet, status }

end TitanTableBuilder

end DiffKV
